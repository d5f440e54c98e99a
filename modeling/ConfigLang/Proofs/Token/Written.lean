import ConfigLang.Token.Lexeme

/-!
# How tokens are written

Symbols are written by their spelling, keys in single quotes, integers in decimal, escapes by their code
point, and names and runs of characters as they are. A float is written with any text that reads as it.

* `IsFloatText` - the texts of floats.
* `Token.WrittenAs` - the texts of tokens.
* `Token.Separable` - the tokens that may stand next to each other in a string.
-/

namespace ConfigLang

/-! ### Texts of floats -/

/-- At least one digit, and digits only. -/
def IsDigits (text : List Char) : Prop :=
  text ≠ [] ∧ ∀ c ∈ text, c.isDigit = true

/-- Nothing, or a mark and digits with perhaps a sign between them. -/
def IsExponentText (text : List Char) : Prop :=
  text = [] ∨ ∃ mark sign digits, (mark = 'e' ∨ mark = 'E') ∧
    (sign = [] ∨ sign = ['+'] ∨ sign = ['-']) ∧ IsDigits digits ∧ text = mark :: (sign ++ digits)

/-- Digits on both sides of a point, with perhaps a minus sign in front and an exponent behind. -/
def IsFloatText (text : List Char) : Prop :=
  ∃ minus whole fraction exponent, (minus = [] ∨ minus = ['-']) ∧ IsDigits whole ∧
    IsDigits fraction ∧ IsExponentText exponent ∧
      text = minus ++ whole ++ '.' :: fraction ++ exponent

/-! ### Keys and escapes -/

/-- A character of a key, with a backslash in front if it is a single quote. -/
def escapeQuote (c : Char) : List Char :=
  if c = '\'' then ['\\', '\''] else [c]

/-- A key in single quotes. -/
def quotedSpelling (key : List Char) : List Char :=
  '\'' :: key.flatMap escapeQuote ++ ['\'']

/-- The last four hexadecimal digits of a number. -/
def fourHexDigits (n : Nat) : List Char :=
  [Nat.digitChar (n / 4096 % 16), Nat.digitChar (n / 256 % 16), Nat.digitChar (n / 16 % 16),
    Nat.digitChar (n % 16)]

/-- A character by its code point. -/
def codeSpelling (c : Char) : List Char := '\\' :: 'u' :: fourHexDigits c.toNat

/-! ### Tokens -/

namespace Token

/-- The name of an input: a `$`, a letter, and then letters, digits and underscores. -/
def IsName (name : List Char) : Prop :=
  ∃ letter rest, name = '$' :: letter :: rest ∧ letter.isAlpha = true ∧
    ∀ c ∈ rest, Lexeme.isNameChar c = true

/-- The texts with which a token is written. -/
inductive WrittenAs : Token → List Char → Prop
  | symbol (s : Symbol) : WrittenAs (.symbol s) s.spelling
  /-- A backslash at the end of a key would take the closing quote into the key. -/
  | segment {key : List Char} (hkey : key.getLast? ≠ some '\\') :
    WrittenAs (.segment (String.ofList key)) (quotedSpelling key)
  | float {value : Float} {text : List Char} (htext : IsFloatText text)
    (hvalue : Decimal.readFloat text = some value) : WrittenAs (.float value) text
  | integer (n : Int64) : WrittenAs (.integer n) (Decimal.writeInt n.toInt).toList
  | escape {c : Char} (hc : c.toNat ≤ 0xFFFF) : WrittenAs (.escape c) (codeSpelling c)
  | characters {run : List Char} (hne : run ≠ [])
    (hrun : ∀ c ∈ run, c ≠ '"' ∧ c ≠ '\\' ∧ c ≠ '$') :
    WrittenAs (.characters (String.ofList run)) run
  | input {name : List Char} (hname : IsName name) : WrittenAs (.input (String.ofList name)) name

/-- The tokens that may stand next to each other: a run of characters must not go on with what could
be more of the run or of the name in front of it. -/
def Separable : Token → Token → Prop
  | characters _, characters _ => False
  | input _, characters text => ∀ c, text.toList.head? = some c → Lexeme.isNameChar c = false
  | _, _ => True

end Token

end ConfigLang

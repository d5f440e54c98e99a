import ConfigLang.Decimal.Read
import ConfigLang.Token

/-!
# Lexemes

Each function of this module reads one kind of token at the start of a text. It answers with the
token and with the characters that spell it there, or with nothing if the text starts with no token
of that kind.

* `Lexeme` - a token with its spelling.
* `symbol?`, `input?`, `float?`, `hexInteger?`, `integer?`, `quotedSegment?`, `bareSegment?`,
  `escape?`, `characters?` - the readers.

A number that does not fit into 64 bits is not read. A quoted key without a closing quote and an
escape that names no character are not read either.
-/

namespace ConfigLang

/-- A token with the characters that spell it. -/
structure Lexeme where
  token : Token
  spelling : List Char
deriving DecidableEq, Repr

namespace Lexeme

/-! ### Character classes -/

/-- The characters that may stand between tokens. -/
def isSpace (c : Char) : Bool := c == ' ' || c == '\t' || c == '\r' || c == '\n'

/-- The characters of an input's name after its first letter. -/
def isNameChar (c : Char) : Bool := c.isAlphanum || c == '_'

/-- The hexadecimal digits, in either letter case. -/
def isHexDigit (c : Char) : Bool :=
  c.isDigit || 'a' ≤ c && c ≤ 'f' || 'A' ≤ c && c ≤ 'F'

/-- The characters of a key that needs no quotes. -/
def isBareChar (c : Char) : Bool := !isSpace c && c != '=' && c != '.'

/-- The characters that stand for themselves in a string literal. -/
def isTextChar (c : Char) : Bool := c != '"' && c != '\\' && c != '$'

/-! ### Symbols and names -/

/-- The given symbol. Nothing is asked of the character after it. -/
def symbol? (s : Symbol) (text : List Char) : Option Lexeme :=
  if s.spelling.isPrefixOf text then some ⟨.symbol s, s.spelling⟩ else none

/-- A `$`, a letter, and then letters, digits and underscores. -/
def input? : List Char → Option Lexeme
  | '$' :: letter :: rest =>
    if letter.isAlpha then
      let name := '$' :: letter :: rest.takeWhile isNameChar
      some ⟨.input (String.ofList name), name⟩
    else none
  | _ => none

/-! ### Numbers -/

/-- A minus sign, if there is one, and what follows it. -/
def splitMinus : List Char → List Char × List Char
  | '-' :: rest => (['-'], rest)
  | rest => ([], rest)

/-- A sign, if there is one, and what follows it. -/
def splitSign : List Char → List Char × List Char
  | '+' :: rest => (['+'], rest)
  | text => splitMinus text

/-- The exponent part at the start of a text; empty if there is none. -/
def exponentSpelling : List Char → List Char
  | [] => []
  | mark :: rest =>
    let (sign, unsigned) := splitSign rest
    let digits := unsigned.takeWhile Char.isDigit
    if (mark = 'e' ∨ mark = 'E') ∧ digits ≠ [] then mark :: sign ++ digits else []

/-- The spelling of a float: digits on both sides of a point, then perhaps an exponent part. -/
def floatSpelling (text : List Char) : Option (List Char) :=
  let (minus, unsigned) := splitMinus text
  let whole := unsigned.takeWhile Char.isDigit
  match unsigned.dropWhile Char.isDigit with
  | '.' :: rest =>
    let fraction := rest.takeWhile Char.isDigit
    if whole = [] ∨ fraction = [] then none
    else some (minus ++ whole ++ '.' :: fraction ++
      exponentSpelling (rest.dropWhile Char.isDigit))
  | _ => none

/-- A decimal number with a point. -/
def float? (text : List Char) : Option Lexeme := do
  let spelling ← floatSpelling text
  let value ← Decimal.readFloat spelling
  some ⟨.float value, spelling⟩

/-- A hexadecimal integer after `0x`. -/
def hexInteger? : List Char → Option Lexeme
  | '0' :: 'x' :: rest =>
    let digits := rest.takeWhile isHexDigit
    if digits = [] then none
    else do
      let value ← Decimal.toInt64? (Decimal.natOfDigits 16 digits)
      some ⟨.integer value, '0' :: 'x' :: digits⟩
  | _ => none

/-- A decimal integer. Underscores may stand anywhere among the digits and have no value. -/
def integer? (text : List Char) : Option Lexeme := do
  let (minus, unsigned) := splitMinus text
  let spelling := minus ++ unsigned.takeWhile fun c => c.isDigit || c == '_'
  let value ← Decimal.readInt64 (spelling.filter (· != '_'))
  some ⟨.integer value, spelling⟩

/-! ### Keys -/

/-- A key up to its closing quote, with the characters read. A quote is part of the key when a
backslash stands in front of it; any other backslash stands for itself. -/
def quotedKey : List Char → Option (List Char × List Char)
  | [] => none
  | '\\' :: '\'' :: rest =>
    (quotedKey rest).map fun (key, spelling) => ('\'' :: key, '\\' :: '\'' :: spelling)
  | c :: rest =>
    if c = '\'' then some ([], ['\''])
    else (quotedKey rest).map fun (key, spelling) => (c :: key, c :: spelling)

/-- A key in single quotes. -/
def quotedSegment? : List Char → Option Lexeme
  | '\'' :: rest =>
    (quotedKey rest).map fun (key, spelling) =>
      ⟨.segment (String.ofList key), '\'' :: spelling⟩
  | _ => none

/-- A key without quotes. -/
def bareSegment? (text : List Char) : Option Lexeme :=
  let key := text.takeWhile isBareChar
  if key = [] then none else some ⟨.segment (String.ofList key), key⟩

/-! ### Inside string literals -/

/-- The character that a letter after a backslash stands for. -/
def escapedChar : Char → Option Char
  | '\\' => some '\\'
  | '"' => some '"'
  | 'n' => some '\n'
  | 'r' => some '\r'
  | 't' => some '\t'
  | '$' => some '$'
  | _ => none

/-- The character with the given code point; the surrogates are no characters. -/
def charOfCode (n : Nat) : Option Char :=
  if n.isValidChar then some (Char.ofNat n) else none

/-- A backslash with a letter, or with `u` and four hexadecimal digits. -/
def escape? : List Char → Option Lexeme
  | '\\' :: 'u' :: rest => do
    let digits := rest.take 4
    if digits.length = 4 ∧ digits.all isHexDigit then
      let char ← charOfCode (Decimal.natOfDigits 16 digits)
      some ⟨.escape char, '\\' :: 'u' :: digits⟩
    else none
  | '\\' :: letter :: _ =>
    (escapedChar letter).map fun char => ⟨.escape char, ['\\', letter]⟩
  | _ => none

/-- A run of characters that stand for themselves. -/
def characters? (text : List Char) : Option Lexeme :=
  let run := text.takeWhile isTextChar
  if run = [] then none else some ⟨.characters (String.ofList run), run⟩

end Lexeme

end ConfigLang

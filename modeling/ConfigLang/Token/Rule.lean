import ConfigLang.Token.Lexeme
import ConfigLang.Token.Mode

/-!
# Rules

Which tokens are read in which mode, in order of priority, and what each of them does to the modes.

* `Reader` - a kind of token to look for.
* `Rule` - a reader with the transition of its tokens.
* `Mode.rules` - the rules of a mode.
* `Mode.read` - the first rule of the mode that reads a token, with its transition.
-/

namespace ConfigLang

/-! ### Readers -/

/-- A kind of token to look for at the start of a text. -/
inductive Reader where
  | symbol (symbol : Symbol)
  | input
  | float
  | hexInteger
  | integer
  | quotedSegment
  | bareSegment
  | escape
  | characters
deriving DecidableEq, Repr

/-- Looks for the token. -/
def Reader.read : Reader → List Char → Option Lexeme
  | symbol s => Lexeme.symbol? s
  | input => Lexeme.input?
  | float => Lexeme.float?
  | hexInteger => Lexeme.hexInteger?
  | integer => Lexeme.integer?
  | quotedSegment => Lexeme.quotedSegment?
  | bareSegment => Lexeme.bareSegment?
  | escape => Lexeme.escape?
  | characters => Lexeme.characters?

/-! ### The rules of each mode -/

/-- A kind of token, and what it does to the modes. -/
structure Rule where
  reader : Reader
  transition : Transition
deriving DecidableEq, Repr

/-- The rules of a mode, the first ones with the highest priority. -/
def Mode.rules : Mode → List Rule
  | topLevel =>
    [⟨.symbol .letWord, .push .inputBlock⟩,
     ⟨.symbol .braceOpen, .push .object⟩]
  | inputBlock =>
    [⟨.symbol .inWord, .pop⟩,
     ⟨.symbol .braceOpen, .stay⟩,
     ⟨.symbol .braceClose, .stay⟩,
     ⟨.input, .stay⟩,
     ⟨.symbol .equals, .push .value⟩]
  | object =>
    [⟨.symbol .braceClose, .pop⟩,
     ⟨.symbol .equals, .push .value⟩,
     ⟨.symbol .spread, .stay⟩,
     ⟨.symbol .dot, .stay⟩,
     ⟨.input, .stay⟩,
     ⟨.quotedSegment, .stay⟩,
     ⟨.bareSegment, .stay⟩]
  | array =>
    [⟨.symbol .bracketClose, .pop⟩,
     ⟨.symbol .braceOpen, .push .object⟩,
     ⟨.symbol .bracketOpen, .push .array⟩,
     ⟨.symbol .spread, .stay⟩,
     ⟨.symbol .trueWord, .stay⟩,
     ⟨.symbol .falseWord, .stay⟩,
     ⟨.symbol .nullWord, .stay⟩,
     ⟨.symbol .doubleQuote, .push .string⟩,
     ⟨.input, .stay⟩,
     ⟨.float, .stay⟩,
     ⟨.hexInteger, .stay⟩,
     ⟨.integer, .stay⟩]
  | value =>
    [⟨.symbol .braceOpen, .replace .object⟩,
     ⟨.symbol .bracketOpen, .replace .array⟩,
     ⟨.symbol .trueWord, .pop⟩,
     ⟨.symbol .falseWord, .pop⟩,
     ⟨.symbol .nullWord, .pop⟩,
     ⟨.symbol .doubleQuote, .replace .string⟩,
     ⟨.input, .pop⟩,
     ⟨.float, .pop⟩,
     ⟨.hexInteger, .pop⟩,
     ⟨.integer, .pop⟩,
     ⟨.symbol .bracketClose, .pop⟩]
  | string =>
    [⟨.symbol .doubleQuote, .pop⟩,
     ⟨.input, .stay⟩,
     ⟨.escape, .stay⟩,
     ⟨.characters, .stay⟩]

/-- The lexeme of a rule, with the rule's transition. -/
def Rule.read (r : Rule) (text : List Char) : Option (Lexeme × Transition) :=
  (r.reader.read text).map (·, r.transition)

/-- The lexeme of the first rule that reads one, with that rule's transition. -/
def Mode.read (mode : Mode) (text : List Char) : Option (Lexeme × Transition) :=
  mode.rules.findSome? (·.read text)

end ConfigLang

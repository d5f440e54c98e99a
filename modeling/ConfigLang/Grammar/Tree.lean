import ConfigLang.Grammar.Place

/-!
# The tree of a list of tokens

A list of tokens is parsed by going from place to place in the grammar, one token at a time.

* `ParseError` - what is wrong with a list of tokens.
* `Grammar.step` - one token.
* `treeOf` - the syntax tree of a list of tokens.
-/

namespace ConfigLang

/-- What is wrong with a list of tokens. -/
inductive ParseError where
  /-- A token that cannot stand at its place. -/
  | unexpected (expected : List Token.Kind) (found : Token)
  /-- The end where more tokens are due. -/
  | unexpectedEnd (expected : List Token.Kind)
  /-- A token after the root object. -/
  | trailing (found : Token)
deriving DecidableEq, Repr

namespace ParseError

/-- A list of kinds in a message. -/
def describe : List Token.Kind → String
  | [kind] => kind.display
  | kinds => "one of " ++ ", ".intercalate (kinds.map Token.Kind.display)

/-- What is wrong. -/
def message : ParseError → String
  | unexpected expected found => "expected " ++ describe expected ++ ", got " ++ found.display
  | unexpectedEnd expected => "unexpected end of input, expected " ++ describe expected
  | trailing found => "expected end of input after the root object, got " ++ found.display

end ParseError

namespace Grammar

/-- The error for a token that cannot stand at a place. -/
def Place.refuse (p : Place) (t : Token) : ParseError :=
  match p with
  | .done _ => .trailing t
  | _ => .unexpected p.expected t

/-- The place after one more token. -/
def step (p : Place) (t : Token) : Except ParseError Place :=
  match p.next? t with
  | some next => .ok next
  | none => .error (p.refuse t)

/-- The tree of a document that ends at a place. -/
def Place.finish : Place → Except ParseError Node
  | .done config => .ok config
  | p => .error (.unexpectedEnd p.expected)

end Grammar

/-- The syntax tree of a list of tokens. -/
def treeOf (tokens : List Token) : Except ParseError Node := do
  let last ← tokens.foldlM Grammar.step .start
  last.finish

end ConfigLang

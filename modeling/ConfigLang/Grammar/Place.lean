import ConfigLang.Node
import ConfigLang.Token

/-!
# Places in the grammar

The grammar of documents, with one token of lookahead:

* `config := 'let' '{' (input '=' value)* '}' 'in' object | object`
* `object := '{' ('..' input | path '=' value)* '}'`, `path := segment ('.' segment)*`
* `array := '[' ('..' input | value)* ']'`
* `string := '"' (characters | escape | input)* '"'`
* `value := object | array | string | float | integer | input | 'true' | 'false' | 'null'`

A document is parsed from left to right, so all that is known after some tokens is the place reached:
what is due next, the parts gathered of the innermost construct, and the constructs around it.

* `Pending` - where the next finished value goes.
* `Place` - a place in the grammar.
* `Place.expected` - the tokens that messages name at a place.
* `Place.next?` - the place after one more token, if the token can stand there.
-/

namespace ConfigLang.Grammar

/-- Where a value goes when it is finished. -/
inductive Pending where
  /-- It is the root object of a document with the given input block. -/
  | root (inputs : Option Node)
  /-- It belongs to an input, after the assignments before it. -/
  | assignment (before : Array Node) (name : String)
  /-- It belongs to a path, in an object with the entries before it. -/
  | pair (before : Array Node) (path : Array Node) (object : Pending)
  /-- It is an item of an array, after the items before it. -/
  | item (before : Array Node) (array : Pending)

/-- A place in the grammar, with the parts gathered of the construct around it. -/
inductive Place where
  /-- At the start of a document. -/
  | start
  /-- After `let`. -/
  | blockStart
  /-- In an input block, where an assignment or the end is due. -/
  | assignments (before : Array Node)
  /-- After the name of an input. -/
  | inputName (before : Array Node) (name : String)
  /-- After the closing brace of an input block. -/
  | blockEnd (assignments : Array Node)
  /-- After `in`. -/
  | rootStart (inputs : Node)
  /-- After `=`. -/
  | value (pending : Pending)
  /-- In an object, where an entry or the end is due. -/
  | entries (before : Array Node) (object : Pending)
  /-- After `..` in an object. -/
  | entrySpread (before : Array Node) (object : Pending)
  /-- After a dot in a path. -/
  | segment (before : Array Node) (path : Array Node) (object : Pending)
  /-- After a segment of a path. -/
  | pathEnd (before : Array Node) (path : Array Node) (object : Pending)
  /-- In an array, where an item or the end is due. -/
  | items (before : Array Node) (array : Pending)
  /-- After `..` in an array. -/
  | itemSpread (before : Array Node) (array : Pending)
  /-- In a string, where a part or the end is due. -/
  | parts (before : Array Node) (string : Pending)
  /-- After the root object. -/
  | done (config : Node)

/-! ### Expected tokens -/

/-- The tokens with which a value begins. -/
def valueStart : List Token.Kind :=
  [.symbol .braceOpen, .symbol .bracketOpen, .symbol .trueWord, .symbol .falseWord,
    .symbol .nullWord, .float, .integer, .symbol .doubleQuote, .input]

/-- The tokens that are named when another one stands at this place. In an array these are the
starts of a value, and after a segment the sign before the value. -/
def Place.expected : Place → List Token.Kind
  | start => [.symbol .letWord, .symbol .braceOpen]
  | blockStart => [.symbol .braceOpen]
  | assignments _ => [.input, .symbol .braceClose]
  | inputName _ _ => [.symbol .equals]
  | blockEnd _ => [.symbol .inWord]
  | rootStart _ => [.symbol .braceOpen]
  | value _ => valueStart
  | entries _ _ => [.symbol .spread, .segment, .symbol .braceClose]
  | entrySpread _ _ => [.input]
  | segment _ _ _ => [.segment]
  | pathEnd _ _ _ => [.symbol .equals]
  | items _ _ => valueStart
  | itemSpread _ _ => [.input]
  | parts _ _ => [.characters, .escape, .input, .symbol .doubleQuote]
  | done _ => []

/-! ### The next place -/

/-- The place after a finished value. -/
def Pending.deliver (v : Node) : Pending → Place
  | root none => .done (.branch .config [v])
  | root (some inputs) => .done (.branch .config [inputs, v])
  | assignment before name =>
    .assignments (before.push
      (.branch .assignment [.leaf .input (.text name), .branch .value [v]]))
  | pair before path object =>
    .entries (before.push (.branch .pair [.branch .path path.toList, v])) object
  | item before array => .items (before.push v) array

/-- The place after the first token of a value, which may be all of it. -/
def beginValue (pending : Pending) : Token → Option Place
  | .symbol .braceOpen => some (.entries #[] pending)
  | .symbol .bracketOpen => some (.items #[] pending)
  | .symbol .doubleQuote => some (.parts #[] pending)
  | .symbol .trueWord => some (pending.deliver (.leaf .boolean (.boolean true)))
  | .symbol .falseWord => some (pending.deliver (.leaf .boolean (.boolean false)))
  | .symbol .nullWord => some (pending.deliver (.branch .null []))
  | .float value => some (pending.deliver (.leaf .float (.float value)))
  | .integer value => some (pending.deliver (.leaf .integer (.integer value)))
  | .input name => some (pending.deliver (.leaf .input (.text name)))
  | _ => none

/-- The place after a token inside an input block. -/
def nextAssignment (before : Array Node) : Token → Option Place
  | .input name => some (.inputName before name)
  | .symbol .braceClose => some (.blockEnd before)
  | _ => none

/-- The place after a token where an entry of an object is due. -/
def nextEntry (before : Array Node) (object : Pending) : Token → Option Place
  | .symbol .spread => some (.entrySpread before object)
  | .segment key => some (.pathEnd before #[.leaf .pathSegment (.text key)] object)
  | .symbol .braceClose => some (object.deliver (.branch .object before.toList))
  | _ => none

/-- The place after a token where a path may go on. -/
def nextInPath (before path : Array Node) (object : Pending) : Token → Option Place
  | .symbol .dot => some (.segment before path object)
  | .symbol .equals => some (.value (.pair before path object))
  | _ => none

/-- The place after a token where an item of an array is due. -/
def nextItem (before : Array Node) (array : Pending) : Token → Option Place
  | .symbol .spread => some (.itemSpread before array)
  | .symbol .bracketClose => some (array.deliver (.branch .array before.toList))
  | t => beginValue (.item before array) t

/-- The place after a token inside a string. -/
def nextPart (before : Array Node) (string : Pending) : Token → Option Place
  | .characters text => some (.parts (before.push (.leaf .charSequence (.text text))) string)
  | .escape char => some (.parts (before.push (.leaf .charEscape (.char char))) string)
  | .input name => some (.parts (before.push (.leaf .input (.text name))) string)
  | .symbol .doubleQuote => some (string.deliver (.branch .string before.toList))
  | _ => none

/-- The place after a token, if the token can stand at this place. -/
def Place.next? : Place → Token → Option Place
  | start, .symbol .letWord => some .blockStart
  | start, .symbol .braceOpen => some (.entries #[] (.root none))
  | blockStart, .symbol .braceOpen => some (.assignments #[])
  | assignments before, t => nextAssignment before t
  | inputName before name, .symbol .equals => some (.value (.assignment before name))
  | blockEnd before, .symbol .inWord => some (.rootStart (.branch .assignBlock before.toList))
  | rootStart inputs, .symbol .braceOpen => some (.entries #[] (.root (some inputs)))
  | value pending, t => beginValue pending t
  | entries before object, t => nextEntry before object t
  | entrySpread before object, .input name =>
    some (.entries (before.push (.leaf .spread (.text name))) object)
  | segment before path object, .segment key =>
    some (.pathEnd before (path.push (.leaf .pathSegment (.text key))) object)
  | pathEnd before path object, t => nextInPath before path object t
  | items before array, t => nextItem before array t
  | itemSpread before array, .input name =>
    some (.items (before.push (.leaf .spread (.text name))) array)
  | parts before string, t => nextPart before string t
  | _, _ => none

end ConfigLang.Grammar

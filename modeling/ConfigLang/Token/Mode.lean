/-!
# Modes

The same character means different things in different places: `"` opens a string where a value is
due and closes it inside one. While a document is cut into tokens, the modes of the constructs around
the current place are kept, the innermost one on top, and each token may change the top.

* `Mode` - what the innermost construct is.
* `Context` - the modes around a place, never none at all.
* `Transition` - what a token does to the modes.
-/

namespace ConfigLang

/-- What a place in a document is part of. -/
inductive Mode where
  | topLevel
  /-- Between `let` and `in`. -/
  | inputBlock
  /-- After `=`, where one value is due. -/
  | value
  | object
  | array
  | string
deriving DecidableEq, Repr

/-- The name of a mode in messages. -/
def Mode.name : Mode → String
  | topLevel => "top level"
  | inputBlock => "input block"
  | value => "value"
  | object => "object"
  | array => "array"
  | string => "string literal"

/-- What a token does to the modes. -/
inductive Transition where
  | stay
  | push (mode : Mode)
  | pop
  /-- The top mode gives way to another one. -/
  | replace (mode : Mode)
deriving DecidableEq, Repr

/-- The modes around a place: the innermost one, and the others from there outwards. -/
structure Context where
  current : Mode
  below : List Mode
deriving DecidableEq, Repr

namespace Context

/-- The context at the start of a document. -/
def start : Context := ⟨.topLevel, []⟩

/-- All modes, the innermost one first. -/
def modes (c : Context) : List Mode := c.current :: c.below

/-- Leaves the innermost construct; the outermost one is never left. -/
def leave : Context → Context
  | ⟨_, outer :: below⟩ => ⟨outer, below⟩
  | c => c

/-- The context after a token with the given transition. -/
def apply (c : Context) : Transition → Context
  | .stay => c
  | .push mode => ⟨mode, c.modes⟩
  | .pop => c.leave
  | .replace mode => ⟨mode, c.below⟩

end Context

end ConfigLang

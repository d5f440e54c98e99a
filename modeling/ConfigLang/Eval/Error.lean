import ConfigLang.Node
import ConfigLang.Value.Path

/-!
# Evaluation errors

* `Malformed` - how a tree differs from the trees that the parser builds.
* `EvalError` - why a tree has no value.
* `EvalError.message` - what is wrong, in words.
-/

namespace ConfigLang

/-- How a tree differs from the trees that the parser builds. -/
inductive Malformed where
  /-- A node of another kind or shape. -/
  | expected (kinds : List Node.Kind) (found : Node)
  /-- A node without the name or key it should carry. -/
  | missingName (found : Node)
  /-- A node that is no value. -/
  | notAValue (found : Node)
  | emptyConfig
  | emptyPath
deriving Repr

/-- What is wrong with the tree. -/
def Malformed.message : Malformed → String
  | expected kinds found =>
    "expected `" ++ "` or `".intercalate (kinds.map Node.Kind.name) ++ "`, got " ++ found.display
  | missingName found => "missing name on " ++ found.display
  | notAValue found => "invalid value type: " ++ found.display
  | emptyConfig => "empty `" ++ Node.Kind.config.name ++ "`"
  | emptyPath => "pair with an empty path"

/-- Why a tree has no value. -/
inductive EvalError where
  /-- A name that is not bound. -/
  | missingInput (name : String)
  /-- An array takes in the items of an input that is no array. -/
  | spreadNonArray (name : String) (found : Value.Kind)
  /-- An object takes in the fields of an input that is no object. -/
  | spreadNonObject (name : String) (found : Value.Kind)
  /-- A string takes in an input that is no string. -/
  | interpolateNonString (name : String) (found : Value.Kind)
  /-- A path goes on below a key whose value is not an object. -/
  | keyChaining (key : String) (found : Value.Kind)
  /-- An input needs itself: each name refers to the next, and the last is the first. -/
  | cyclicInput (chain : List String)
  | malformed (reason : Malformed)
deriving Repr

namespace EvalError

/-- The error of a node that is of none of the expected kinds. -/
def unexpected (kinds : List Node.Kind) (found : Node) : EvalError :=
  .malformed (.expected kinds found)

/-- The error of a write that fails. -/
def ofPathError : PathError → EvalError
  | .emptyPath => .malformed .emptyPath
  | .blocked key found => .keyChaining key found

/-- What is wrong. -/
def message : EvalError → String
  | missingInput name => "input `" ++ name ++ "` does not exist"
  | spreadNonArray name found =>
    "attempted to spread non-array input `" ++ name ++ "` (" ++ found.name ++ ") into array"
  | spreadNonObject name found =>
    "attempted to spread non-object input `" ++ name ++ "` (" ++ found.name ++ ") into object"
  | interpolateNonString name found =>
    "attempted to interpolate `" ++ name ++ "` which is not of type string (" ++ found.name ++ ")"
  | keyChaining key found =>
    "attempted to use key-chaining on non-object type: `" ++ key ++ "` is " ++ found.name
  | cyclicInput chain => "cyclic input reference: " ++ " -> ".intercalate chain
  | malformed reason => "malformed syntax tree: " ++ reason.message

end EvalError

end ConfigLang

import ConfigLang.Decimal.Text
import ConfigLang.Text.Quoted

/-!
# Syntax trees

A syntax tree is uniform: every node has a kind, children in order, and perhaps a literal. The
parser builds trees of the following shapes; other trees can be put together by hand.

* `config [assignBlock, object]` or `config [object]`
* `assignBlock [assignment*]`, `assignment [input(name), value [v]]`
* `object [(spread(name) | pair)*]`, `pair [path, v]`, `path [pathSegment(key)+]`
* `array [(spread(name) | v)*]`
* `string [(charSequence(text) | charEscape(char) | input(name))*]`
* `boolean`, `float`, `integer`, `input` with their literal, and `null`

Main definitions.

* `Node` - a syntax tree.
* `Node.induct` - a property of all trees follows for each from that of its children.
* `Node.display` - its text: the kind, the literal in parentheses and the children in brackets.
-/

namespace ConfigLang

/-- The data of a leaf. -/
inductive Literal where
  | boolean (value : Bool)
  | integer (value : Int64)
  | float (value : Float)
  | char (value : Char)
  /-- A name, a key or a run of characters. -/
  | text (value : String)
deriving DecidableEq, Repr

/-- The text of a literal. -/
def Literal.display : Literal → String
  | boolean true => "true"
  | boolean false => "false"
  | integer value => Decimal.writeInt value.toInt
  | float value => Decimal.write .plain value
  | char value => Text.quoteChar value
  | text value => Text.quoteString value

/-- What a node stands for. -/
inductive Node.Kind where
  | config
  | assignBlock
  | assignment
  | object
  | pair
  | path
  | pathSegment
  | spread
  | array
  | input
  | value
  | boolean
  | float
  | integer
  | string
  | charSequence
  | charEscape
  | null
deriving DecidableEq, Repr

namespace Node.Kind

/-- The name of a kind. -/
def name : Node.Kind → String
  | config => "Config"
  | assignBlock => "AssignBlock"
  | assignment => "Assignment"
  | object => "Object"
  | pair => "Pair"
  | path => "Path"
  | pathSegment => "PathSegment"
  | spread => "Spread"
  | array => "Array"
  | input => "Input"
  | value => "Value"
  | boolean => "Boolean"
  | float => "Float"
  | integer => "Integer"
  | string => "String"
  | charSequence => "CharSequence"
  | charEscape => "CharEscape"
  | null => "Null"

/-- All kinds. -/
def all : List Node.Kind :=
  [config, assignBlock, assignment, object, pair, path, pathSegment, spread, array, input, value,
    boolean, float, integer, string, charSequence, charEscape, null]

theorem mem_all (k : Node.Kind) : k ∈ all := by
  cases k <;> decide

end Node.Kind

/-- A syntax tree. -/
structure Node where
  kind : Node.Kind
  literal : Option Literal
  children : List Node
deriving Repr

namespace Node

/-- A node without children. -/
def leaf (kind : Kind) (literal : Literal) : Node := ⟨kind, some literal, []⟩

/-- A node without a literal. -/
def branch (kind : Kind) (children : List Node) : Node := ⟨kind, none, children⟩

/-- The name, key or run of characters that a leaf carries. -/
def text? (n : Node) : Option String :=
  match n.literal with
  | some (.text value) => some value
  | _ => none

/-! ### Induction -/

/-- A property that each node has if its children have it is a property of all nodes. -/
@[elab_as_elim]
theorem induct {P : Node → Prop}
    (node : ∀ kind literal children, (∀ c ∈ children, P c) → P ⟨kind, literal, children⟩)
    (n : Node) : P n := by
  refine Node.rec (motive_1 := P) (motive_2 := fun children => ∀ c ∈ children, P c) node ?_ ?_ n
  · intro c hc
    exact absurd hc List.not_mem_nil
  · intro first others hfirst hothers c hc
    rcases List.mem_cons.1 hc with rfl | hc
    · exact hfirst
    · exact hothers c hc

/-! ### Text -/

/-- The kind of a node, with its literal if it has one. -/
def header (kind : Kind) : Option Literal → String
  | none => kind.name
  | some literal => kind.name ++ "(" ++ literal.display ++ ")"

mutual

/-- The text of a tree. -/
def display : Node → String
  | ⟨kind, literal, []⟩ => header kind literal
  | ⟨kind, literal, first :: others⟩ =>
    header kind literal ++ " [" ++ first.display ++ displayOthers others ++ "]"
termination_by structural n => n

/-- The texts of the children after the first. -/
def displayOthers : List Node → String
  | [] => ""
  | n :: others => ", " ++ n.display ++ displayOthers others
termination_by structural ns => ns

end

end Node

end ConfigLang

import ConfigLang.Node
import ConfigLang.Token

/-!
# Shapes of trees and the tokens they are written with

The grammar read from the side of the trees: which trees have the shapes of its productions, and which
tokens each of them is written with. Neither is said through the parser.

* `Production`, `Shaped` - the shapes of the productions.
* `Node.tokens` - the tokens of a tree.

The tokens of a node are those of its children with the symbols of its production in between, so
`Node.tokens` is one recursion over the tree and `Node.withSymbols` the table of productions.
-/

namespace ConfigLang

/-! ### Shapes -/

/-- The productions of the grammar, each with the trees that it stands for. -/
inductive Production where
  | config
  | inputBlock
  | assignment
  | object
  /-- A spread or a pair of an object. -/
  | entry
  | path
  | segment
  /-- A spread or a value in an array. -/
  | item
  /-- A part of a string. -/
  | part
  | value
deriving DecidableEq, Repr

/-- The trees of a production. Literals stand on leaves only. -/
inductive Shaped : Production → Node → Prop where
  | config {object : Node} : Shaped .object object → Shaped .config (.branch .config [object])
  | configWithInputs {block object : Node} : Shaped .inputBlock block → Shaped .object object →
      Shaped .config (.branch .config [block, object])
  | inputBlock {assignments : List Node} : (∀ a ∈ assignments, Shaped .assignment a) →
      Shaped .inputBlock (.branch .assignBlock assignments)
  | assignment {value : Node} (name : String) : Shaped .value value →
      Shaped .assignment (.branch .assignment [.leaf .input (.text name), .branch .value [value]])
  | object {entries : List Node} : (∀ e ∈ entries, Shaped .entry e) →
      Shaped .object (.branch .object entries)
  | entrySpread (name : String) : Shaped .entry (.leaf .spread (.text name))
  | pair {path value : Node} : Shaped .path path → Shaped .value value →
      Shaped .entry (.branch .pair [path, value])
  | path {segments : List Node} : segments ≠ [] → (∀ s ∈ segments, Shaped .segment s) →
      Shaped .path (.branch .path segments)
  | segment (key : String) : Shaped .segment (.leaf .pathSegment (.text key))
  | itemSpread (name : String) : Shaped .item (.leaf .spread (.text name))
  | itemValue {value : Node} : Shaped .value value → Shaped .item value
  | charSequence (text : String) : Shaped .part (.leaf .charSequence (.text text))
  | charEscape (char : Char) : Shaped .part (.leaf .charEscape (.char char))
  | interpolation (name : String) : Shaped .part (.leaf .input (.text name))
  | objectValue {object : Node} : Shaped .object object → Shaped .value object
  | array {items : List Node} : (∀ i ∈ items, Shaped .item i) →
      Shaped .value (.branch .array items)
  | string {parts : List Node} : (∀ p ∈ parts, Shaped .part p) →
      Shaped .value (.branch .string parts)
  | input (name : String) : Shaped .value (.leaf .input (.text name))
  | boolean (value : Bool) : Shaped .value (.leaf .boolean (.boolean value))
  | float (value : Float) : Shaped .value (.leaf .float (.float value))
  | integer (value : Int64) : Shaped .value (.leaf .integer (.integer value))
  | null : Shaped .value (.branch .null [])

theorem Shaped.path_iff {segments : List Node} :
    Shaped .path (.branch .path segments) ↔
      segments ≠ [] ∧ ∀ s ∈ segments, Shaped .segment s := by
  constructor
  · intro h
    cases h with
    | path hne hsegments => exact ⟨hne, hsegments⟩
  · rintro ⟨hne, hsegments⟩
    exact .path hne hsegments

theorem Shaped.kind_eq_object {n : Node} (h : Shaped .object n) : n.kind = .object := by
  cases h
  rfl

theorem Shaped.kind_ne_spread {n : Node} (h : Shaped .value n) : n.kind ≠ .spread := by
  cases h with
  | objectValue h =>
    rw [h.kind_eq_object]
    intro h
    cases h
  | _ =>
    intro h
    cases h

/-- A value of the kind of inputs is the reference to a name. -/
theorem Shaped.exists_eq_input {n : Node} (h : Shaped .value n) (hkind : n.kind = .input) :
    ∃ name, n = .leaf .input (.text name) := by
  cases h with
  | input name => exact ⟨name, rfl⟩
  | objectValue hobject =>
    rw [hobject.kind_eq_object] at hkind
    cases hkind
  | _ => cases hkind

/-! ### Tokens -/

namespace Node

/-- The tokens of a leaf. -/
def leafTokens : Kind → Literal → List Token
  | .input, .text name => [.input name]
  | .spread, .text name => [.symbol .spread, .input name]
  | .pathSegment, .text key => [.segment key]
  | .charSequence, .text text => [.characters text]
  | .charEscape, .char char => [.escape char]
  | .boolean, .boolean value => [.symbol (if value then .trueWord else .falseWord)]
  | .float, .float value => [.float value]
  | .integer, .integer value => [.integer value]
  | _, _ => []

/-- The tokens of a branch, given those of its children in order. -/
def branchTokens : Kind → List (List Token) → List Token
  | .config, [block, object] => .symbol .letWord :: block ++ object
  | .assignBlock, assignments =>
    .symbol .braceOpen :: assignments.flatten ++ [.symbol .braceClose, .symbol .inWord]
  | .assignment, [name, value] => name ++ .symbol .equals :: value
  | .object, entries => .symbol .braceOpen :: entries.flatten ++ [.symbol .braceClose]
  | .pair, [path, value] => path ++ .symbol .equals :: value
  | .path, first :: others => first ++ others.flatMap (.symbol .dot :: ·)
  | .array, items => .symbol .bracketOpen :: items.flatten ++ [.symbol .bracketClose]
  | .string, parts => .symbol .doubleQuote :: parts.flatten ++ [.symbol .doubleQuote]
  | .null, _ => [.symbol .nullWord]
  | _, children => children.flatten

/-- The tokens of a node with the given literal and the given tokens of its children. -/
def withSymbols (kind : Kind) : Option Literal → List (List Token) → List Token
  | some literal, _ => leafTokens kind literal
  | none, children => branchTokens kind children

mutual

/-- The tokens that a tree is written with. -/
def tokens : Node → List Token
  | ⟨kind, literal, children⟩ => withSymbols kind literal (tokensOfEach children)
termination_by structural n => n

/-- The tokens that each of some trees is written with. -/
def tokensOfEach : List Node → List (List Token)
  | [] => []
  | n :: others => n.tokens :: tokensOfEach others
termination_by structural ns => ns

end

theorem tokensOfEach_eq_map (ns : List Node) : tokensOfEach ns = ns.map tokens := by
  induction ns with
  | nil => rw [tokensOfEach, List.map_nil]
  | cons n others ih => rw [tokensOfEach, ih, List.map_cons]

theorem tokens_leaf (kind : Kind) (literal : Literal) :
    (leaf kind literal).tokens = leafTokens kind literal := by
  rw [leaf, tokens, withSymbols]

theorem tokens_branch (kind : Kind) (children : List Node) :
    (branch kind children).tokens = branchTokens kind (children.map tokens) := by
  rw [branch, tokens, withSymbols, tokensOfEach_eq_map]

/-- One more segment of a path is written behind a dot. -/
theorem tokens_path_append {segments : List Node} (hne : segments ≠ []) (segment : Node) :
    (branch .path (segments ++ [segment])).tokens =
      (branch .path segments).tokens ++ .symbol .dot :: segment.tokens := by
  obtain ⟨first, others, rfl⟩ := List.exists_cons_of_ne_nil hne
  simp [tokens_branch, branchTokens]

end Node

end ConfigLang

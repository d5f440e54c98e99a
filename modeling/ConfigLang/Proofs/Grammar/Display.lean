import ConfigLang.Proofs.Decimal.Numerals
import ConfigLang.Proofs.Grammar.Acceptance
import ConfigLang.Proofs.Text.Quoted

/-!
# Trees are known from their texts

The text of a tree shows where each node ends. A kind ends at the first character that is no letter, a literal
at the closing parenthesis behind its quotes or digits, and a node where a comma, a bracket or nothing follows it.
An integer and a whole float have the same digits, but they do not stand on nodes of the same kind.

* `Literal.Sort`, `Node.Kind.sort?`, `Node.Labelled` - which literals stand on which nodes, and that the trees of
  all productions keep to it.
* `Literal.display_append_inj`, `Node.header_append_inj` - literals and kinds.
* `Node.KnownFromText` - a node, and all that follows it, are known from the text of both.
* `Node.knownFromText_of_labelled` - by induction on the tree.
* `Grammar.tree_eq_of_display_eq` - the result.
-/

namespace ConfigLang

/-! ### The literals of a kind -/

/-- The sorts of literals. -/
inductive Literal.Sort where
  | boolean
  | integer
  | float
  | char
  | text
deriving DecidableEq

def Literal.sort : Literal → Literal.Sort
  | boolean _ => .boolean
  | integer _ => .integer
  | float _ => .float
  | char _ => .char
  | text _ => .text

/-- The sort of literal that the nodes of a kind carry, if they carry one. -/
def Node.Kind.sort? : Node.Kind → Option Literal.Sort
  | boolean => some .boolean
  | integer => some .integer
  | float => some .float
  | charEscape => some .char
  | pathSegment | spread | input | charSequence => some .text
  | _ => none

/-- All nodes of the tree carry literals of the sort of their kind. -/
inductive Node.Labelled : Node → Prop
  | intro {kind : Kind} {literal : Option Literal} {children : List Node} :
      literal.map Literal.sort = kind.sort? → (∀ c ∈ children, c.Labelled) →
        Labelled ⟨kind, literal, children⟩

theorem Node.Labelled.leaf {kind : Kind} {literal : Literal} (h : some literal.sort = kind.sort?) :
    (Node.leaf kind literal).Labelled :=
  .intro h fun _ hc => absurd hc List.not_mem_nil

theorem Node.Labelled.branch {kind : Kind} {children : List Node} (hkind : kind.sort? = none)
    (hchildren : ∀ c ∈ children, c.Labelled) : (Node.branch kind children).Labelled :=
  .intro hkind.symm hchildren

/-- The trees of all productions are labelled so. -/
theorem Shaped.labelled {production : Production} {n : Node} (h : Shaped production n) : n.Labelled := by
  induction h with
  | config _ ihobject => exact .branch rfl (List.forall_mem_singleton.2 ihobject)
  | configWithInputs _ _ ihblock ihobject =>
    exact .branch rfl (List.forall_mem_cons.2 ⟨ihblock, List.forall_mem_singleton.2 ihobject⟩)
  | inputBlock _ ih => exact .branch rfl ih
  | assignment name _ ihvalue =>
    exact .branch rfl (List.forall_mem_cons.2 ⟨.leaf rfl,
      List.forall_mem_singleton.2 (.branch rfl (List.forall_mem_singleton.2 ihvalue))⟩)
  | object _ ih => exact .branch rfl ih
  | pair _ _ ihpath ihvalue =>
    exact .branch rfl (List.forall_mem_cons.2 ⟨ihpath, List.forall_mem_singleton.2 ihvalue⟩)
  | path _ _ ih => exact .branch rfl ih
  | itemValue _ ihvalue => exact ihvalue
  | objectValue _ ihobject => exact ihobject
  | array _ ih => exact .branch rfl ih
  | string _ ih => exact .branch rfl ih
  | null => exact .branch rfl fun _ hc => absurd hc List.not_mem_nil
  | _ => exact .leaf rfl

/-! ### Literals -/

section Literals

variable {l l' : Literal} {text text' : String} {rest rest' : List Char}

/-- Texts of numbers and words end at the first parenthesis. -/
theorem numeral_append_inj (htext : ∀ c ∈ text.toList, Decimal.isNumeral c = true)
    (htext' : ∀ c ∈ text'.toList, Decimal.isNumeral c = true)
    (h : text.toList ++ ')' :: rest = text'.toList ++ ')' :: rest') : text = text' ∧ rest = rest' := by
  have hclose : ∀ behind, BeginsWithout Decimal.isNumeral (')' :: behind) := fun _ =>
    beginsWithout_cons (by decide)
  obtain ⟨hchars, hbehind⟩ := run_append_inj htext htext' (hclose rest) (hclose rest') h
  exact ⟨String.toList_injective hchars, (List.cons.inj hbehind).2⟩

theorem isNumeral_of_mem_boolean (value : Bool) :
    ∀ c ∈ (Literal.boolean value).display.toList, Decimal.isNumeral c = true := by
  have hall : (Literal.boolean value).display.toList.all Decimal.isNumeral = true := by
    cases value <;> decide
  exact List.all_eq_true.1 hall

theorem boolean_display_injective : Function.Injective fun value => (Literal.boolean value).display := by
  intro value value' h
  cases value <;> cases value' <;> first | rfl | exact absurd h (by decide)

/-- A literal is known from its text up to the closing parenthesis, once its sort is known. -/
theorem Literal.display_append_inj (hsort : l.sort = l'.sort)
    (h : l.display.toList ++ ')' :: rest = l'.display.toList ++ ')' :: rest') : l = l' ∧ rest = rest' := by
  cases l with
  | boolean value =>
    cases l' with
    | boolean value' =>
      obtain ⟨htext, hrest⟩ := numeral_append_inj (isNumeral_of_mem_boolean value)
        (isNumeral_of_mem_boolean value') h
      exact ⟨congrArg boolean (boolean_display_injective htext), hrest⟩
    | _ => cases hsort
  | integer value =>
    cases l' with
    | integer value' =>
      obtain ⟨htext, hrest⟩ := numeral_append_inj (fun _ => Decimal.isNumeral_of_mem_writeInt)
        (fun _ => Decimal.isNumeral_of_mem_writeInt) h
      exact ⟨congrArg integer (Int64.toInt_inj.1 (Decimal.writeInt_injective htext)), hrest⟩
    | _ => cases hsort
  | float value =>
    cases l' with
    | float value' =>
      obtain ⟨htext, hrest⟩ := numeral_append_inj (fun _ => Decimal.isNumeral_of_mem_write)
        (fun _ => Decimal.isNumeral_of_mem_write) h
      exact ⟨congrArg float (Decimal.write_plain_injective htext), hrest⟩
    | _ => cases hsort
  | char value =>
    cases l' with
    | char value' =>
      obtain ⟨rfl, hrest⟩ := Text.quoteChar_append_inj h
      exact ⟨rfl, (List.cons.inj hrest).2⟩
    | _ => cases hsort
  | text value =>
    cases l' with
    | text value' =>
      obtain ⟨rfl, hrest⟩ := Text.quoteString_append_inj h
      exact ⟨rfl, (List.cons.inj hrest).2⟩
    | _ => cases hsort

/-- Without the sort it is not: an integer and a whole float have the same digits. -/
example : (Literal.integer 100).display = (Literal.float 100).display := by decide +kernel

end Literals

namespace Node

/-! ### Kinds -/

section Headers

variable {kind kind' : Kind} {literal literal' : Option Literal} {rest rest' : List Char}

theorem Kind.name_injective : Function.Injective Kind.name := by
  intro kind kind' h
  have hall : ∀ k ∈ Kind.all, ∀ k' ∈ Kind.all, k.name = k'.name → k = k' := by
    decide +kernel
  exact hall kind kind.mem_all kind' kind'.mem_all h

theorem Kind.isAlpha_of_mem_name (kind : Kind) : ∀ c ∈ kind.name.toList, c.isAlpha = true := by
  have hall : kind.name.toList.all Char.isAlpha = true := by
    cases kind <;> decide
  exact List.all_eq_true.1 hall

/-- The name of a kind ends where the letters end. -/
theorem Kind.name_append_inj (hrest : BeginsWithout Char.isAlpha rest)
    (hrest' : BeginsWithout Char.isAlpha rest')
    (h : kind.name.toList ++ rest = kind'.name.toList ++ rest') : kind = kind' ∧ rest = rest' := by
  obtain ⟨hname, hbehind⟩ := run_append_inj kind.isAlpha_of_mem_name kind'.isAlpha_of_mem_name hrest hrest' h
  exact ⟨Kind.name_injective (String.toList_injective hname), hbehind⟩

/-- What stands behind the name of a kind. -/
def behindName : Option Literal → List Char → List Char
  | none, rest => rest
  | some literal, rest => '(' :: (literal.display.toList ++ ')' :: rest)

theorem header_append (kind : Kind) (literal : Option Literal) (rest : List Char) :
    (header kind literal).toList ++ rest = kind.name.toList ++ behindName literal rest := by
  cases literal with
  | none => rfl
  | some literal => simp [header, behindName, String.toList_append]

theorem beginsWithout_isAlpha_behindName (hrest : BeginsWithout Char.isAlpha rest) :
    BeginsWithout Char.isAlpha (behindName literal rest) := by
  cases literal with
  | none => exact hrest
  | some literal => exact beginsWithout_cons (by decide)

/-- A kind and its literal are known from their text. -/
theorem header_append_inj (hsort : literal.map Literal.sort = kind.sort?)
    (hsort' : literal'.map Literal.sort = kind'.sort?) (hrest : BeginsWithout Char.isAlpha rest)
    (hrest' : BeginsWithout Char.isAlpha rest')
    (h : (header kind literal).toList ++ rest = (header kind' literal').toList ++ rest') :
    kind = kind' ∧ literal = literal' ∧ rest = rest' := by
  rw [header_append, header_append] at h
  obtain ⟨rfl, hbehind⟩ := Kind.name_append_inj (beginsWithout_isAlpha_behindName hrest)
    (beginsWithout_isAlpha_behindName hrest') h
  have hsame := hsort.trans hsort'.symm
  cases literal with
  | none =>
    cases literal' with
    | none => exact ⟨rfl, rfl, hbehind⟩
    | some l' => cases hsame
  | some l =>
    cases literal' with
    | none => cases hsame
    | some l' =>
      obtain ⟨rfl, hrest⟩ := Literal.display_append_inj (Option.some.inj hsame) (List.cons.inj hbehind).2
      exact ⟨rfl, rfl, hrest⟩

end Headers

/-! ### Trees -/

/-- The children of a node in brackets. -/
def bracketed : List Node → List Char
  | [] => []
  | first :: others => ' ' :: '[' :: (first.display.toList ++ ((displayOthers others).toList ++ [']']))

theorem toList_display (kind : Kind) (literal : Option Literal) (children : List Node) :
    (Node.mk kind literal children).display.toList = (header kind literal).toList ++ bracketed children := by
  cases children with
  | nil => rw [display, bracketed, List.append_nil]
  | cons first others => simp [display, bracketed, String.toList_append]

theorem toList_displayOthers_cons (n : Node) (others : List Node) :
    (displayOthers (n :: others)).toList =
      ',' :: ' ' :: (n.display.toList ++ (displayOthers others).toList) := by
  simp [displayOthers, String.toList_append]

/-- The characters that the text of a node could go on with. -/
def goesOn (c : Char) : Bool := c.isAlpha || c == ' '

/-- The node and the text behind it are known from its text with the other one behind it, if no node goes on
like this. -/
def KnownFromText (n : Node) : Prop :=
  ∀ {n' : Node} {rest rest' : List Char}, n'.Labelled → BeginsWithout goesOn rest →
    BeginsWithout goesOn rest' → n.display.toList ++ rest = n'.display.toList ++ rest' →
    n = n' ∧ rest = rest'

/-- Behind a child there is a comma or the closing bracket. -/
theorem beginsWithout_goesOn_others (others : List Node) (rest : List Char) :
    BeginsWithout goesOn ((displayOthers others).toList ++ ']' :: rest) := by
  cases others with
  | nil => exact beginsWithout_cons (by decide)
  | cons n others =>
    rw [toList_displayOthers_cons]
    exact beginsWithout_cons (by decide)

/-- The children behind the first are known from their text up to the closing bracket. -/
theorem displayOthers_append_inj {ns ns' : List Node} {rest rest' : List Char}
    (hns : ∀ n ∈ ns, n.KnownFromText) (hns' : ∀ n ∈ ns', n.Labelled)
    (h : (displayOthers ns).toList ++ ']' :: rest = (displayOthers ns').toList ++ ']' :: rest') :
    ns = ns' ∧ rest = rest' := by
  induction ns generalizing ns' with
  | nil =>
    cases ns' with
    | nil => exact ⟨rfl, (List.cons.inj h).2⟩
    | cons n' ns' =>
      rw [toList_displayOthers_cons] at h
      exact absurd (List.cons.inj h).1 (by decide)
  | cons n ns ih =>
    obtain ⟨hn, hothers⟩ := List.forall_mem_cons.1 hns
    rw [toList_displayOthers_cons] at h
    cases ns' with
    | nil => exact absurd (List.cons.inj h).1 (by decide)
    | cons n' ns' =>
      obtain ⟨hn', hothers'⟩ := List.forall_mem_cons.1 hns'
      rw [toList_displayOthers_cons] at h
      simp only [List.cons_append, List.append_assoc] at h
      obtain ⟨rfl, hbehind⟩ := hn hn' (beginsWithout_goesOn_others ns rest)
        (beginsWithout_goesOn_others ns' rest') (List.cons.inj (List.cons.inj h).2).2
      obtain ⟨rfl, hrest⟩ := ih hothers hothers' hbehind
      exact ⟨rfl, hrest⟩

/-- Behind a kind and its literal there is no letter. -/
theorem beginsWithout_isAlpha_bracketed {rest : List Char} (hrest : BeginsWithout goesOn rest)
    (children : List Node) : BeginsWithout Char.isAlpha (bracketed children ++ rest) := by
  cases children with
  | nil => exact fun c hc => (Bool.or_eq_false_iff.1 (hrest c hc)).1
  | cons first others => exact beginsWithout_cons (by decide)

/-- The children of a node are known from their text. -/
theorem bracketed_append_inj {children children' : List Node} {rest rest' : List Char}
    (hchildren : ∀ c ∈ children, c.KnownFromText) (hchildren' : ∀ c ∈ children', c.Labelled)
    (hrest : BeginsWithout goesOn rest) (hrest' : BeginsWithout goesOn rest')
    (h : bracketed children ++ rest = bracketed children' ++ rest') : children = children' ∧ rest = rest' := by
  cases children with
  | nil =>
    cases children' with
    | nil => exact ⟨rfl, h⟩
    | cons first' others' => exact absurd h (hrest.ne_cons (by decide) _)
  | cons first others =>
    cases children' with
    | nil => exact absurd h.symm (hrest'.ne_cons (by decide) _)
    | cons first' others' =>
      obtain ⟨hfirst, hothers⟩ := List.forall_mem_cons.1 hchildren
      obtain ⟨hfirst', hothers'⟩ := List.forall_mem_cons.1 hchildren'
      simp only [bracketed, List.cons_append, List.append_assoc, List.nil_append] at h
      obtain ⟨rfl, hbehind⟩ := hfirst hfirst' (beginsWithout_goesOn_others others rest)
        (beginsWithout_goesOn_others others' rest') (List.cons.inj (List.cons.inj h).2).2
      obtain ⟨rfl, hrest⟩ := displayOthers_append_inj hothers hothers' hbehind
      exact ⟨rfl, hrest⟩

/-- Every tree with the literals of its kinds is known from its text. -/
theorem knownFromText_of_labelled {n : Node} (hn : n.Labelled) : n.KnownFromText := by
  -- The induction is on one of the two trees. The texts behind both go along, because children have more behind
  -- them than their parent.
  induction n using induct with
  | node kind literal children ih =>
    obtain ⟨hsort, hchildren⟩ := hn
    intro n' rest rest' hn' hrest hrest' h
    obtain @⟨kind', literal', children', hsort', hchildren'⟩ := hn'
    rw [toList_display, toList_display, List.append_assoc, List.append_assoc] at h
    obtain ⟨rfl, rfl, hbehind⟩ := header_append_inj hsort hsort'
      (beginsWithout_isAlpha_bracketed hrest children) (beginsWithout_isAlpha_bracketed hrest' children') h
    obtain ⟨rfl, hends⟩ := bracketed_append_inj (fun c hc => ih c hc (hchildren c hc)) hchildren' hrest hrest'
      hbehind
    exact ⟨rfl, hends⟩

end Node

namespace Grammar

variable {tokens tokens' : List Token} {tree tree' : Node}

/-- Syntax trees with the same text are the same, whatever characters are in their keys and strings. A float that
is not a number makes no difference: there is only one. -/
theorem tree_eq_of_display_eq (htree : treeOf tokens = .ok tree) (htree' : treeOf tokens' = .ok tree')
    (h : tree.display = tree'.display) : tree = tree' := by
  have hlabelled := (shaped_and_tokens_of_treeOf htree).1.labelled
  have hlabelled' := (shaped_and_tokens_of_treeOf htree').1.labelled
  have hend : BeginsWithout Node.goesOn [] := fun _ hc => by cases hc
  exact (Node.knownFromText_of_labelled hlabelled hlabelled' hend hend
    (by rw [h])).1

/-- A key that looks like the text of a tree, and a float that was written in two ways. -/
theorem tree_eq_of_display_eq_with_key_like_text :
    let tokens (value : Float) : List Token := [.symbol .braceOpen, .segment "a\")], Integer(1", .symbol .equals,
      .float value, .symbol .braceClose]
    let tree (value : Float) : Node := .branch .config [.branch .object [.branch .pair
      [.branch .path [.leaf .pathSegment (.text "a\")], Integer(1")], .leaf .float (.float value)]]]
    treeOf (tokens 1e2) = .ok (tree 1e2) ∧ treeOf (tokens 100.0) = .ok (tree 100.0) ∧
      (tree 1e2).display = "Config [Object [Pair [Path [PathSegment(\"a\\\")], Integer(1\")], Float(100)]]]" ∧
      tree 1e2 = tree 100.0 := by
  intro tokens tree
  have htree : treeOf (tokens 1e2) = .ok (tree 1e2) := rfl
  have htree' : treeOf (tokens 100.0) = .ok (tree 100.0) := rfl
  have hdisplay : (tree 1e2).display = (tree 100.0).display := by
    decide +kernel
  exact ⟨htree, htree', by decide +kernel, tree_eq_of_display_eq htree htree' hdisplay⟩

end Grammar

end ConfigLang

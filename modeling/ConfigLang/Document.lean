import ConfigLang.Eval.Config
import ConfigLang.Grammar.Tree
import ConfigLang.Json
import ConfigLang.Token.Cursor

/-!
# Documents

From the text of a document to its value: the text is cut into tokens, the ends of the token list
are checked, and then the tokens are parsed and the tree is evaluated.

* `DocumentError` - what is wrong with a document, at whatever stage.
* `evaluate` - the value of a document.
* `syntaxTree` - the syntax tree of a document.
* `check` - the value of a document as JSON, or only whether it has a syntax tree.
-/

namespace ConfigLang

/-- What is wrong with a document. -/
inductive DocumentError where
  | tokens (error : Unreadable)
  | tree (error : ParseError)
  | evaluation (error : EvalError)
  /-- There are fewer than two tokens. -/
  | tooShort (count : Nat)
  | unexpectedFirst (found : Token)
  | unexpectedLast (found : Token)
deriving Repr

/-- What is wrong. -/
def DocumentError.message : DocumentError → String
  | tokens error => "lex error: " ++ error.message
  | tree error => "parse error: " ++ error.message
  | evaluation error => "evaluation error: " ++ error.message
  | tooShort count => "token stream too short (" ++ Decimal.writeInt count ++ " tokens)"
  | unexpectedFirst found =>
    "expected first token to be one of `let` or `\x7b`, got " ++ found.display
  | unexpectedLast found => "expected last token to be `\x7d`, got " ++ found.display

/-- A document begins with `let` or an opening brace and ends with a closing one. -/
def checkEnds : List Token → Except DocumentError Unit
  | first :: second :: rest =>
    let last := (second :: rest).getLast (List.cons_ne_nil _ _)
    if first ≠ .symbol .letWord ∧ first ≠ .symbol .braceOpen then .error (.unexpectedFirst first)
    else if last ≠ .symbol .braceClose then .error (.unexpectedLast last)
    else .ok ()
  | tokens => .error (.tooShort tokens.length)

/-- The tokens of a document. -/
def readTokens (source : String) : Except DocumentError (List Token) :=
  (tokensOf source).mapError .tokens

/-- The syntax tree of a list of tokens. -/
def readTree (tokens : List Token) : Except DocumentError Node :=
  (treeOf tokens).mapError .tree

/-- The syntax tree of a document; the ends of its token list are not checked. -/
def syntaxTree (source : String) : Except DocumentError Node := do
  let tokens ← readTokens source
  readTree tokens

/-- The value of a document in an environment. -/
def evaluate (env : Environment) (source : String) : Except DocumentError Evaluation := do
  let tokens ← readTokens source
  checkEnds tokens
  let tree ← readTree tokens
  (tree.evaluate env).mapError .evaluation

/-- Tokens with the right ends pass, whatever stands between. -/
theorem checkEnds_of_ends {first : Token}
    (hfirst : first = .symbol .letWord ∨ first = .symbol .braceOpen) (inner : List Token) :
    checkEnds (first :: (inner ++ [.symbol .braceClose])) = .ok () := by
  obtain ⟨second, rest, hrest⟩ :=
    List.exists_cons_of_ne_nil (List.append_ne_nil_of_right_ne_nil inner (List.cons_ne_nil
      (Token.symbol .braceClose) []))
  have hlast : (second :: rest).getLast (List.cons_ne_nil _ _) = .symbol .braceClose := by
    simp only [← hrest, List.getLast_concat]
  rw [hrest, checkEnds]
  simp only [hlast]
  rcases hfirst with rfl | rfl <;> rfl

/-- Tokens that begin as documents do can only be too few or end in another way. -/
theorem cases_of_checkEnds {tokens : List Token} (hfirst : ∀ first rest, tokens = first :: rest →
      first = .symbol .letWord ∨ first = .symbol .braceOpen) :
    checkEnds tokens = .ok () ∨ (∃ count, checkEnds tokens = .error (.tooShort count)) ∨
      ∃ found, checkEnds tokens = .error (.unexpectedLast found) := by
  unfold checkEnds
  split
  next first second rest =>
    have hbegins : ¬ (first ≠ .symbol .letWord ∧ first ≠ .symbol .braceOpen) := by
      rcases hfirst first _ rfl with rfl | rfl <;> decide
    simp only [if_neg hbegins]
    split
    · exact Or.inr (Or.inr ⟨_, rfl⟩)
    · exact Or.inl rfl
  · exact Or.inr (Or.inl ⟨_, rfl⟩)

theorem checkEnds_ne_evaluation (tokens : List Token) (e : EvalError) :
    checkEnds tokens ≠ .error (.evaluation e) := by
  unfold checkEnds
  split
  · simp only
    split
    · simp
    · split <;> simp
  · simp

/-- A document that evaluation fails on has tokens and a tree. -/
theorem tree_of_evaluate_eq_error {env : Environment} {source : String} {e : EvalError}
    (h : evaluate env source = .error (.evaluation e)) :
    ∃ tokens tree, treeOf tokens = .ok tree ∧ tree.evaluate env = .error e := by
  unfold evaluate readTokens readTree at h
  cases htokens : tokensOf source with
  | error unreadable =>
    rw [htokens] at h
    cases h
  | ok tokens =>
    rw [htokens] at h
    have hrest : (checkEnds tokens >>= fun _ => (treeOf tokens).mapError .tree >>= fun tree =>
        (tree.evaluate env).mapError DocumentError.evaluation) = .error (.evaluation e) := h
    cases hends : checkEnds tokens with
    | error wrong =>
      rw [hends] at hrest
      obtain rfl := Except.error.inj hrest
      exact absurd hends (checkEnds_ne_evaluation tokens e)
    | ok _ =>
      rw [hends] at hrest
      cases htree : treeOf tokens with
      | error wrong =>
        rw [htree] at hrest
        cases hrest
      | ok tree =>
        rw [htree] at hrest
        have hlast : (tree.evaluate env).mapError DocumentError.evaluation =
            .error (.evaluation e) := hrest
        cases heval : tree.evaluate env with
        | ok evaluation =>
          rw [heval] at hlast
          cases hlast
        | error wrong =>
          rw [heval] at hlast
          obtain rfl := DocumentError.evaluation.inj (Except.error.inj hlast)
          exact ⟨tokens, tree, htree, heval⟩

/-! ### Checking -/

/-- What a check of a document finds. -/
inductive Verdict where
  /-- The document has a syntax tree; its value was not asked for. -/
  | syntaxValid
  | value (json : Json)
deriving Repr

/-- The text of a verdict. -/
def Verdict.text (pretty : Bool) : Verdict → String
  | syntaxValid => "Syntax is valid"
  | value json => if pretty then json.pretty else json.compact

/-- Evaluates a document to JSON, or only parses it. -/
def check (syntaxOnly : Bool) (env : Environment) (source : String) :
    Except DocumentError Verdict :=
  if syntaxOnly then (syntaxTree source).map fun _ => .syntaxValid
  else (evaluate env source).map fun e => .value e.value.toJson

end ConfigLang

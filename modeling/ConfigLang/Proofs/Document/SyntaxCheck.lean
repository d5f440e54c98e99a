import ConfigLang.Document
import ConfigLang.Proofs.Grammar.Acceptance
import ConfigLang.Proofs.Token.SyntaxErrors

/-!
# Checking the syntax alone

A document can be checked without being evaluated. Evaluation looks at the ends of the token list before it
parses the list, and the check does not. Still both come to the same about the syntax: no list with a tree is
turned down for its ends, and no text has a list with a wrong token at its start.

* `Grammar.exists_ends_of_treeOf` - the ends of the lists that have a tree.
* `first_of_tokensOf` - the start of the lists that come from a text.
* `check_of_unreadable`, `check_of_parseError`, `check_of_tree` - all that the check can find.
* `evaluate_of_unreadable`, `evaluate_of_parseError`, `evaluate_of_tree` - what evaluation finds in these cases.
* `syntax_check_agrees_with_evaluation` - the result.
-/

namespace ConfigLang

/-! ### The ends of token lists -/

namespace Grammar

theorem exists_tokens_of_shaped_object {n : Node} (h : Shaped .object n) :
    ∃ inner, n.tokens = .symbol .braceOpen :: (inner ++ [.symbol .braceClose]) := by
  cases h with
  | object _ =>
    rw [Node.tokens_branch]
    exact ⟨_, rfl⟩

/-- A list that has a tree begins with `let` or an opening brace, and it ends with the brace that closes the
root object. -/
theorem exists_ends_of_treeOf {tokens : List Token} {tree : Node} (h : treeOf tokens = .ok tree) :
    ∃ first inner, (first = .symbol .letWord ∨ first = .symbol .braceOpen) ∧
      tokens = first :: (inner ++ [.symbol .braceClose]) := by
  obtain ⟨hshaped, rfl⟩ := shaped_and_tokens_of_treeOf h
  cases hshaped with
  | config hobject =>
    obtain ⟨inner, hinner⟩ := exists_tokens_of_shaped_object hobject
    refine ⟨_, inner, Or.inr rfl, ?_⟩
    rw [Node.tokens_branch, ← hinner]
    simp [Node.branchTokens]
  | @configWithInputs block object _ hobject =>
    obtain ⟨inner, hinner⟩ := exists_tokens_of_shaped_object hobject
    refine ⟨_, block.tokens ++ .symbol .braceOpen :: inner, Or.inl rfl, ?_⟩
    rw [Node.tokens_branch]
    simp [Node.branchTokens, hinner]

end Grammar

/-- The first token of a text is one that a document can begin with. -/
theorem first_of_tokensOf {source : String} {first : Token} {rest : List Token}
    (h : tokensOf source = .ok (first :: rest)) :
    first = .symbol .letWord ∨ first = .symbol .braceOpen := by
  have hfirst : tokensOf source = .ok ([] ++ first :: rest) := h
  obtain ⟨transition, htransition⟩ := exists_transition?_of_leads hfirst (.refl _)
  exact Grammar.letWord_or_braceOpen_of_topLevel htransition

/-! ### Stages -/

section Stages

variable {source : String} {tokens : List Token} {tree : Node}

theorem check_of_unreadable (env : Environment) {e : Unreadable} (h : tokensOf source = .error e) :
    check true env source = .error (.tokens e) := by
  rw [check, if_pos rfl, syntaxTree, readTokens, h]
  rfl

theorem check_of_parseError (env : Environment) {e : ParseError} (htokens : tokensOf source = .ok tokens)
    (htree : treeOf tokens = .error e) : check true env source = .error (.tree e) := by
  rw [check, if_pos rfl, syntaxTree, readTokens, htokens]
  show (readTree tokens).map _ = _
  rw [readTree, htree]
  rfl

theorem check_of_tree (env : Environment) (htokens : tokensOf source = .ok tokens)
    (htree : treeOf tokens = .ok tree) : check true env source = .ok .syntaxValid := by
  rw [check, if_pos rfl, syntaxTree, readTokens, htokens]
  show (readTree tokens).map _ = _
  rw [readTree, htree]
  rfl

theorem evaluate_of_unreadable (env : Environment) {e : Unreadable} (h : tokensOf source = .error e) :
    evaluate env source = .error (.tokens e) := by
  rw [evaluate, readTokens, h]
  rfl

/-- Tokens without a tree are turned down for that, or before that for their number or their end. -/
theorem evaluate_of_parseError (env : Environment) {e : ParseError} (htokens : tokensOf source = .ok tokens)
    (htree : treeOf tokens = .error e) :
    evaluate env source = .error (.tree e) ∨
      (∃ count, evaluate env source = .error (.tooShort count)) ∨
        ∃ found, evaluate env source = .error (.unexpectedLast found) := by
  have hfirst : ∀ first rest, tokens = first :: rest →
      first = .symbol .letWord ∨ first = .symbol .braceOpen := by
    rintro first rest rfl
    exact first_of_tokensOf htokens
  have hstages : evaluate env source = checkEnds tokens >>= fun _ => .error (.tree e) := by
    rw [evaluate, readTokens, htokens]
    show (checkEnds tokens >>= fun _ => readTree tokens >>= fun tree => _) = _
    rw [readTree, htree]
    rfl
  rw [hstages]
  rcases cases_of_checkEnds hfirst with hends | ⟨count, hends⟩ | ⟨found, hends⟩
  · rw [hends]
    exact Or.inl rfl
  · rw [hends]
    exact Or.inr (Or.inl ⟨count, rfl⟩)
  · rw [hends]
    exact Or.inr (Or.inr ⟨found, rfl⟩)

/-- Tokens with a tree are not turned down for their ends, so the tree is evaluated. -/
theorem evaluate_of_tree (env : Environment) (htokens : tokensOf source = .ok tokens)
    (htree : treeOf tokens = .ok tree) :
    evaluate env source = (tree.evaluate env).mapError .evaluation := by
  obtain ⟨first, inner, hfirst, hends⟩ := Grammar.exists_ends_of_treeOf htree
  have hpass : checkEnds tokens = .ok () := by
    rw [hends]
    exact checkEnds_of_ends hfirst inner
  rw [evaluate, readTokens, htokens]
  show (checkEnds tokens >>= fun _ => readTree tokens >>= fun tree => _) = _
  rw [hpass, readTree, htree]
  rfl

end Stages

/-- The check of the syntax finds a document valid if and only if evaluation has a value for it or fails in
evaluating its tree. A text that cannot be cut into tokens is turned down by both with the same error. Tokens
without a tree are turned down by both, and evaluation has the same error for them unless they are too few or
end in the wrong way: it never finds fault with the first one. -/
theorem syntax_check_agrees_with_evaluation (env : Environment) (source : String) :
    (check true env source = .ok .syntaxValid ↔
      (∃ result, evaluate env source = .ok result) ∨
        ∃ e, evaluate env source = .error (.evaluation e)) ∧
    (∀ e, check true env source = .error (.tokens e) → evaluate env source = .error (.tokens e)) ∧
    (∀ e, check true env source = .error (.tree e) →
      evaluate env source = .error (.tree e) ∨
        (∃ count, evaluate env source = .error (.tooShort count)) ∨
          ∃ found, evaluate env source = .error (.unexpectedLast found)) ∧
    ∀ found, evaluate env source ≠ .error (.unexpectedFirst found) := by
  cases htokens : tokensOf source with
  | error unreadable =>
    rw [check_of_unreadable env htokens, evaluate_of_unreadable env htokens]
    simp
  | ok tokens =>
    cases htree : treeOf tokens with
    | error wrong =>
      rw [check_of_parseError env htokens htree]
      rcases evaluate_of_parseError env htokens htree with heval | ⟨count, heval⟩ | ⟨found, heval⟩
      · rw [heval]
        simp
      · rw [heval]
        simp
      · rw [heval]
        simp
    | ok tree =>
      rw [check_of_tree env htokens htree, evaluate_of_tree env htokens htree]
      cases tree.evaluate env with
      | ok result => simp [Except.mapError]
      | error e => simp [Except.mapError]

/-- The check of an unfinished document asks for a value, and evaluation minds its end or asks for the same. -/
theorem unfinished_array_is_turned_down_by_both :
    check true .empty "\x7b a = [" = .error (.tree (.unexpectedEnd Grammar.valueStart)) ∧
      (evaluate .empty "\x7b a = [" = .error (.tree (.unexpectedEnd Grammar.valueStart)) ∨
        (∃ count, evaluate .empty "\x7b a = [" = .error (.tooShort count)) ∨
          ∃ found, evaluate .empty "\x7b a = [" = .error (.unexpectedLast found)) := by
  have htokens : tokensOf "\x7b a = [" =
      .ok [.symbol .braceOpen, .segment "a", .symbol .equals, .symbol .bracketOpen] := by
    decide +kernel
  have hcheck := check_of_parseError .empty htokens rfl
  exact ⟨hcheck, (syntax_check_agrees_with_evaluation .empty _).2.2.1 _ hcheck⟩

end ConfigLang

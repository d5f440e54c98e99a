import ConfigLang.Proofs.Token.Nesting

/-!
# Modes follow from kinds

The modes around a place follow from the kinds of the tokens in front of it. What the tokens carry, how they are
spelled, which gaps stand between them and what comes behind them makes no difference.

* `Context.after?`, `Context.afterAll?` - the modes after tokens of given kinds.
* `Cursor.emitted` - the tokens that some attempts to read one answer with.
* `Cursor.afterAll?_token`, `Cursor.afterAll?_emitted` - one attempt and any number of them.
* `modes_depend_on_kinds_only` - the result.

Several rules of a mode may read tokens of one kind, and the text decides which of them does. All of them do the
same to the modes (`Mode.transition?_of_mem_rules`), so the kind is all that counts.
-/

namespace ConfigLang

/-! ### Contexts -/

namespace Context

/-- The context after a token of a kind, if the innermost mode has a rule for it. -/
def after? (c : Context) (kind : Token.Kind) : Option Context :=
  (c.current.transition? kind).map c.apply

/-- The context after tokens of the given kinds. -/
def afterAll? (c : Context) (kinds : List Token.Kind) : Option Context :=
  kinds.foldlM after? c

variable {c d : Context} {kinds : List Token.Kind}

theorem afterAll?_append (h : c.afterAll? kinds = some d) (later : List Token.Kind) :
    c.afterAll? (kinds ++ later) = d.afterAll? later := by
  rw [afterAll?, List.foldlM_append]
  exact congrArg (· >>= _) h

end Context

/-! ### Cursors -/

namespace Cursor

/-- The tokens that some attempts to read one answer with, the first one first. -/
def emitted (c : Cursor) : Nat → List Token
  | 0 => []
  | attempts + 1 => c.emitted attempts ++ (c.afterAttempts attempts).token?.toList

/-- An attempt changes the modes as the kind of its token asks for, or not at all if there is no token. -/
theorem afterAll?_token (c : Cursor) :
    c.context.afterAll? (c.token?.toList.map Token.kind) = some c.next.2.context := by
  rcases c.context_next with ⟨htoken, hsame⟩ | ⟨t, transition, htoken, htransition, happly⟩
  · rw [htoken, hsame]
    rfl
  · have hafter : c.context.after? t.kind = some (c.context.apply transition) :=
      congrArg (Option.map c.context.apply) htransition
    rw [htoken, happly]
    exact Option.bind_eq_some_iff.2 ⟨_, hafter, rfl⟩

/-- Any number of attempts changes them as the kinds of all the tokens ask for. -/
theorem afterAll?_emitted (c : Cursor) (attempts : Nat) :
    c.context.afterAll? ((c.emitted attempts).map Token.kind) = some (c.afterAttempts attempts).context := by
  induction attempts with
  | zero => rfl
  | succ attempts ih =>
    rw [emitted, List.map_append, Context.afterAll?_append ih]
    exact afterAll?_token _

end Cursor

/-! ### Two documents -/

/-- After some attempts to read tokens of two documents, or of one document twice, the modes are the same if the
tokens that were read have the same kinds in the same order. The attempts need not be equally many, and some of
them may have failed: the modes are what the rules make of the kinds. -/
theorem modes_depend_on_kinds_only (source source' : String) (attempts attempts' : Nat)
    (hkinds : ((Cursor.start source).emitted attempts).map Token.kind =
      ((Cursor.start source').emitted attempts').map Token.kind) :
    let c := (Cursor.start source).afterAttempts attempts
    let d := (Cursor.start source').afterAttempts attempts'
    c.context = d.context ∧
      Context.start.afterAll? (((Cursor.start source).emitted attempts).map Token.kind) = some c.context := by
  intro c d
  have hc : Context.start.afterAll? (((Cursor.start source).emitted attempts).map Token.kind) = some c.context :=
    (Cursor.start source).afterAll?_emitted attempts
  have hd : Context.start.afterAll? (((Cursor.start source').emitted attempts').map Token.kind) = some d.context :=
    (Cursor.start source').afterAll?_emitted attempts'
  rw [← hkinds, hc] at hd
  exact ⟨Option.some.inj hd, hc⟩

/-- Other names, other numbers in other spellings, other gaps, and in the second document two failed attempts to
go on with its string: the tokens have the same kinds, and both places are in a string in an array. -/
theorem modes_in_strings_behind_tokens_of_the_same_kinds :
    let first := Cursor.start "let \x7b $a = \x7b x = 0x1F \x7d $b = [ \""
    let second := Cursor.start "let\x7b$c=\x7b'y z'=// in\n-1_0\x7d$d=[\"$"
    (first.emitted 13).map Token.kind = (second.emitted 15).map Token.kind ∧
      first.emitted 13 ≠ second.emitted 15 ∧ (first.emitted 13).length = 13 ∧
      (first.afterAttempts 13).context = (second.afterAttempts 15).context ∧
      (first.afterAttempts 13).context.modes = [.string, .array, .inputBlock, .topLevel] := by
  intro first second
  have hkinds : (first.emitted 13).map Token.kind = (second.emitted 15).map Token.kind := by
    decide +kernel
  refine ⟨hkinds, by decide +kernel, by decide +kernel, ?_, by decide +kernel⟩
  exact (modes_depend_on_kinds_only _ _ 13 15 hkinds).1

end ConfigLang

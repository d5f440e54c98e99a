import ConfigLang.Proofs.Token.Cuts
import ConfigLang.Proofs.Token.Lockstep

/-!
# The syntax errors of texts

Lists of tokens that come from a text can go wrong in fewer ways than lists that are put together by hand.
As long as the grammar goes on with the tokens, the modes of the text are those of the place reached, so the
next token is one that the innermost mode of the place has a rule for.

* `Cursor.exists_reached` - a cursor and a place move on together.
* `Grammar.Place.trailing_of_refuse`, `Grammar.Place.unexpected_of_refuse` - at which places such a token is
  refused.
* `cut_texts_stay_in_step_with_the_grammar` - the result.
-/

namespace ConfigLang

namespace Cursor

variable {c d : Cursor} {t : Token} {tokens before after : List Token}

/-! ### Reading some of the tokens -/

/-- The first of the tokens is the next one, and the others follow it. -/
theorem exists_next_of_tokens_cons (h : c.run.tokens = t :: tokens) :
    ∃ d, c.next = (.ok (some t), d) ∧ c.run = d.run.cons t d ∧ d.run.tokens = tokens := by
  cases hnext : c.next with
  | mk outcome d =>
    rcases outcome with e | _ | u
    · rw [run_of_error hnext] at h
      cases h
    · rw [run_of_none hnext] at h
      cases h
    · have hrun := run_of_some hnext
      rw [hrun] at h
      obtain ⟨rfl, htokens⟩ := List.cons.inj h
      exact ⟨d, rfl, hrun, htokens⟩

/-- Where there are no tokens and no error, the document ends. -/
theorem last_of_tokens_nil (h : c.run.tokens = []) (herror : c.run.error = none) :
    c.run.last = c.skipGap := by
  cases hnext : c.next with
  | mk outcome d =>
    rcases outcome with e | _ | u
    · rw [run_of_error hnext] at herror
      cases herror
    · rw [run_of_none hnext]
      exact (rest_of_next_eq_none hnext).2
    · rw [run_of_some hnext] at h
      cases h

open Grammar

/-- A cursor at the modes of a place is at the modes of the next place after the token that leads there. -/
theorem context_of_next? {p q : Place} (hcontext : c.context = p.context)
    (hnext : c.next = (.ok (some t), d)) (hq : p.next? t = some q) : d.context = q.context := by
  obtain ⟨transition, htransition, hd⟩ := context_of_next hnext
  obtain ⟨⟨transition', htransition', hq'⟩, -⟩ := Place.follows_of_next? hq
  have hmode : c.mode = p.context.current := congrArg Context.current hcontext
  rw [hmode, htransition'] at htransition
  rw [hd, hq', hcontext, Option.some.inj htransition]

/-- While the grammar goes on with the tokens, the cursor stays at the modes of the place. -/
theorem exists_reached {p q : Place} (hcontext : c.context = p.context)
    (htokens : c.run.tokens = before ++ after) (hlead : p.Leads before q) :
    ∃ d : Cursor, d.context = q.context ∧ d.run.tokens = after ∧ d.run.error = c.run.error ∧
      d.run.last = c.run.last := by
  induction before generalizing c p with
  | nil =>
    rw [← Place.leads_nil_iff.1 hlead]
    exact ⟨c, hcontext, htokens, rfl, rfl⟩
  | cons t before ih =>
    obtain ⟨next, hnext, hlead⟩ := Place.leads_cons_iff.1 hlead
    obtain ⟨d, hread, hrun, hrest⟩ := exists_next_of_tokens_cons htokens
    rw [hrun]
    exact ih (context_of_next? hcontext hread hnext) hrest hlead

end Cursor

/-! ### Places -/

namespace Grammar

variable {p : Place} {t : Token} {transition : Transition}

/-- A document can begin with any token of its outermost mode. -/
theorem Place.exists_next?_start (h : Mode.topLevel.transition? t.kind = some transition) :
    ∃ q, Place.start.next? t = some q := by
  cases t with
  | symbol s => cases s <;> first | exact ⟨_, rfl⟩ | cases h
  | _ => cases h

/-- In an array the grammar goes on with all tokens of the mode. -/
theorem Place.exists_next?_items (before : Array Node) (array : Pending)
    (h : Mode.array.transition? t.kind = some transition) :
    ∃ q, (Place.items before array).next? t = some q := by
  cases t with
  | symbol s => cases s <;> first | exact ⟨_, rfl⟩ | cases h
  | _ => first | exact ⟨_, rfl⟩ | cases h

/-- In a string the grammar goes on with all tokens of the mode. -/
theorem Place.exists_next?_parts (before : Array Node) (string : Pending)
    (h : Mode.string.transition? t.kind = some transition) :
    ∃ q, (Place.parts before string).next? t = some q := by
  cases t with
  | symbol s => cases s <;> first | exact ⟨_, rfl⟩ | cases h
  | _ => first | exact ⟨_, rfl⟩ | cases h

/-- The mode of values has one token that no value begins with. -/
theorem Place.exists_next?_value_or (pending : Pending)
    (h : Mode.value.transition? t.kind = some transition) :
    (∃ q, (Place.value pending).next? t = some q) ∨ t = .symbol .bracketClose := by
  cases t with
  | symbol s =>
    cases s <;> first | exact Or.inl ⟨_, rfl⟩ | exact Or.inr rfl | cases h
  | _ => first | exact Or.inl ⟨_, rfl⟩ | cases h

/-- Behind a document only another one can begin. -/
theorem letWord_or_braceOpen_of_topLevel (h : Mode.topLevel.transition? t.kind = some transition) :
    t = .symbol .letWord ∨ t = .symbol .braceOpen := by
  cases t with
  | symbol s => cases s <;> first | exact Or.inl rfl | exact Or.inr rfl | cases h
  | _ => cases h

/-- The tokens of strings are expected in strings only. -/
theorem Place.eq_parts_of_expected
    (h : p.expected = [.characters, .escape, .input, .symbol .doubleQuote]) :
    ∃ before string, p = .parts before string := by
  cases p with
  | parts before string => exact ⟨before, string, rfl⟩
  | _ => simp [expected, valueStart] at h

theorem Place.eq_start_of_expected (h : p.expected = [.symbol .letWord, .symbol .braceOpen]) :
    p = .start := by
  cases p with
  | start => rfl
  | _ => simp [expected, valueStart] at h

/-- The starts of values are expected behind an equals sign and in arrays. -/
theorem Place.eq_value_or_items_of_expected (h : p.expected = valueStart) :
    (∃ pending, p = .value pending) ∨ ∃ before array, p = .items before array := by
  cases p with
  | value pending => exact Or.inl ⟨pending, rfl⟩
  | items before array => exact Or.inr ⟨before, array, rfl⟩
  | _ => simp [expected, valueStart] at h

section Refused

variable {u : Token} {expected : List Token.Kind}

/-- What is left over behind a document begins another one. -/
theorem Place.trailing_of_refuse (htransition : p.context.current.transition? t.kind = some transition)
    (h : p.refuse t = .trailing u) : u = .symbol .letWord ∨ u = .symbol .braceOpen := by
  cases p with
  | done config =>
    obtain rfl := ParseError.trailing.inj h
    exact letWord_or_braceOpen_of_topLevel htransition
  | _ => cases h

/-- A token that the innermost mode has a rule for is refused neither in a string nor at the start of a
document, and where a value is due only a closing bracket is. -/
theorem Place.unexpected_of_refuse
    (htransition : p.context.current.transition? t.kind = some transition) (hnone : p.next? t = none)
    (h : p.refuse t = .unexpected expected u) :
    expected ≠ [.characters, .escape, .input, .symbol .doubleQuote] ∧
      expected ≠ [.symbol .letWord, .symbol .braceOpen] ∧
      (expected = valueStart → u = .symbol .bracketClose) := by
  have hrefused : p.expected = expected ∧ t = u := by
    cases p with
    | done config => cases h
    | _ => exact ParseError.unexpected.inj h
  obtain ⟨rfl, rfl⟩ := hrefused
  have hstuck : ¬ ∃ q, p.next? t = some q := by
    rintro ⟨q, hq⟩
    rw [hnone] at hq
    cases hq
  refine ⟨fun hparts => ?_, fun hstart => ?_, fun hvalue => ?_⟩
  · obtain ⟨before, string, rfl⟩ := eq_parts_of_expected hparts
    exact hstuck (exists_next?_parts before string htransition)
  · obtain rfl := eq_start_of_expected hstart
    exact hstuck (exists_next?_start htransition)
  · rcases eq_value_or_items_of_expected hvalue with ⟨pending, rfl⟩ | ⟨before, array, rfl⟩
    · exact (exists_next?_value_or pending htransition).resolve_left hstuck
    · exact absurd (exists_next?_items before array htransition) hstuck

end Refused

end Grammar

/-! ### Whole documents -/

open Grammar

section Documents

variable {source : String} {tokens before after : List Token} {t : Token} {p : Place}

/-- At the place that some of the tokens lead to, the innermost mode has a rule for the next one. -/
theorem exists_transition?_of_leads (htokens : tokensOf source = .ok (before ++ t :: after))
    (hlead : Place.start.Leads before p) :
    ∃ transition, p.context.current.transition? t.kind = some transition := by
  obtain ⟨hrun, -⟩ := run_of_tokensOf htokens
  obtain ⟨d, hd, hrest, -, -⟩ := Cursor.exists_reached rfl hrun hlead
  obtain ⟨_, hnext, -, -⟩ := Cursor.exists_next_of_tokens_cons hrest
  obtain ⟨transition, htransition, -⟩ := Cursor.context_of_next hnext
  have hmode : d.mode = p.context.current := congrArg Context.current hd
  exact ⟨transition, hmode ▸ htransition⟩

/-- The modes at the end are those of the place that all tokens lead to. -/
theorem context_last_of_leads (htokens : tokensOf source = .ok tokens)
    (hlead : Place.start.Leads tokens p) :
    (Cursor.start source).run.last.context = p.context := by
  obtain ⟨hrun, herror⟩ := run_of_tokensOf htokens
  rw [← List.append_nil tokens] at hrun
  obtain ⟨d, hd, hrest, herror', hlast⟩ := Cursor.exists_reached rfl hrun hlead
  rw [← hlast, Cursor.last_of_tokens_nil hrest (herror'.trans herror), Cursor.skipGap_context, hd]

/-- The tokens of a text have no tree because one of them is refused, though the innermost mode has a rule
for it, or because they end too early. -/
theorem refused_or_unexpectedEnd (htokens : tokensOf source = .ok tokens) {e : ParseError}
    (herror : treeOf tokens = .error e) :
    (∃ (p : Place) (t : Token) (transition : Transition),
        p.context.current.transition? t.kind = some transition ∧ p.next? t = none ∧
          e = p.refuse t) ∨
      ∃ expected, e = .unexpectedEnd expected := by
  rcases cases_of_treeOf_eq_error herror with
    ⟨before, t, after, p, rfl, hlead, hnone, hrefuse⟩ | ⟨p, -, hfinish⟩
  · obtain ⟨transition, htransition⟩ := exists_transition?_of_leads htokens hlead
    exact Or.inl ⟨p, t, transition, htransition, hnone, hrefuse⟩
  · cases p with
    | done config => cases hfinish
    | _ => exact Or.inr ⟨_, (Except.error.inj hfinish).symm⟩

/-- Cutting a text into tokens and parsing them stay in step: behind a document that has a tree all modes but
the outermost are left, and the tokens of a text are refused in few ways only. In strings and in arrays, where
a part, an item or the end is due, none is. -/
theorem cut_texts_stay_in_step_with_the_grammar (htokens : tokensOf source = .ok tokens) :
    (∀ tree, treeOf tokens = .ok tree →
      (Cursor.start source).run.last.context.modes = [.topLevel]) ∧
    (∀ t, treeOf tokens = .error (.trailing t) → t = .symbol .letWord ∨ t = .symbol .braceOpen) ∧
    (∀ expected t, treeOf tokens = .error (.unexpected expected t) →
      expected ≠ [.characters, .escape, .input, .symbol .doubleQuote] ∧
      expected ≠ [.symbol .letWord, .symbol .braceOpen] ∧
      (expected = valueStart → t = .symbol .bracketClose)) ∧
    ∀ before t after p, tokens = before ++ t :: after → Place.start.Leads before p →
      p.inString = true ∨ (∃ items array, p = .items items array) → ∃ q, p.next? t = some q := by
  refine ⟨fun tree htree => ?_, fun t herror => ?_, fun expected t herror => ?_, ?_⟩
  · rw [context_last_of_leads htokens (treeOf_eq_ok_iff.1 htree)]
    rfl
  · rcases refused_or_unexpectedEnd htokens herror with ⟨p, u, _, htransition, -, hrefuse⟩ | ⟨_, h⟩
    · exact p.trailing_of_refuse htransition hrefuse.symm
    · cases h
  · rcases refused_or_unexpectedEnd htokens herror with
      ⟨p, u, _, htransition, hnone, hrefuse⟩ | ⟨_, h⟩
    · exact p.unexpected_of_refuse htransition hnone hrefuse.symm
    · cases h
  · rintro before t after p rfl hlead hplace
    obtain ⟨transition, htransition⟩ := exists_transition?_of_leads htokens hlead
    rcases hplace with hstring | ⟨items, array, rfl⟩
    · cases p with
      | parts parts string => exact Place.exists_next?_parts parts string htransition
      | _ => cases hstring
    · exact Place.exists_next?_items items array htransition

/-- The closing bracket that the mode of values reads is refused with the starts of values. -/
theorem stray_bracket_stays_in_step :
    tokensOf "\x7b a = ] \x7d" =
        .ok [.symbol .braceOpen, .segment "a", .symbol .equals, .symbol .bracketClose,
          .symbol .braceClose] ∧
      treeOf [.symbol .braceOpen, .segment "a", .symbol .equals, .symbol .bracketClose,
          .symbol .braceClose] = .error (.unexpected valueStart (.symbol .bracketClose)) ∧
      valueStart ≠ [.symbol .letWord, .symbol .braceOpen] := by
  have htokens : tokensOf "\x7b a = ] \x7d" =
      .ok [.symbol .braceOpen, .segment "a", .symbol .equals, .symbol .bracketClose,
        .symbol .braceClose] := by
    decide +kernel
  have htree : treeOf [.symbol .braceOpen, .segment "a", .symbol .equals, .symbol .bracketClose,
      .symbol .braceClose] = .error (.unexpected valueStart (.symbol .bracketClose)) := rfl
  have hstep := (cut_texts_stay_in_step_with_the_grammar htokens).2.2.1 _ _ htree
  exact ⟨htokens, htree, hstep.2.1⟩

end Documents

end ConfigLang

import ConfigLang.Proofs.Token.Lockstep
import ConfigLang.Proofs.Token.Steps
import Mathlib.Data.List.Chain

/-!
# Rendered documents

Tokens are rendered as a document by writing them one after the other, with a space between any two of
them that are not in the same string. Wherever a list of tokens has a tree, cutting its document into
tokens gives the list back.

* `render` - the document of some lexemes.
* `Cursor.next_of_written` - a cursor in front of a written token reads the token.
* `Grammar.Place.next_of_next?` - a cursor at the modes of a place reads the token that the grammar
  goes on with.
* `Grammar.Place.run_of_leads` - it reads all tokens up to the end.
* `tokensOf_render` - the result.
-/

namespace ConfigLang

/-! ### Rendering -/

/-- Lexemes that go on a document: a space stands in front of each, but not inside a string. -/
def renderRest : (inString : Bool) → List Lexeme → List Char
  | _, [] => []
  | inString, l :: rest =>
    (if inString then [] else [' ']) ++
      (l.spelling ++ renderRest (inString != l.token.isQuote) rest)

/-- Lexemes as a document. -/
def render : List Lexeme → List Char
  | [] => []
  | l :: rest => l.spelling ++ renderRest l.token.isQuote rest

/-! ### Tokens next to each other -/

namespace Token

variable {t u : Token} {written text : List Char}

theorem ReadFrom.ne_nil (h : t.ReadFrom written) : written ≠ [] := by
  obtain ⟨c, tail, rfl, -⟩ := h.exists_cons_begins
  exact List.cons_ne_nil c tail

theorem ReadFrom.exists_cons_mem_firsts (h : t.ReadFrom written) (hkind : t.kind ≠ .characters) :
    ∃ c tail, written = c :: tail ∧ c ∈ t.kind.reader.firsts := by
  obtain ⟨c, tail, hcons, hc⟩ := h.exists_cons_begins
  have hbare : t.kind.reader ≠ .bareSegment := by
    cases t <;> exact Reader.noConfusion
  have hcharacters : t.kind.reader ≠ .characters := by
    cases t with
    | characters text => exact absurd rfl hkind
    | _ => exact Reader.noConfusion
  exact ⟨c, tail, hcons, Reader.mem_firsts_of_begins hbare hcharacters hc⟩

/-- A token other than a run of characters is not taken for a gap. -/
theorem ReadFrom.beginsNoGap (h : t.ReadFrom written) (hkind : t.kind ≠ .characters)
    (text : List Char) : BeginsNoGap (written ++ text) := by
  obtain ⟨c, tail, rfl, hc⟩ := h.exists_cons_mem_firsts hkind
  intro d hd
  rw [← Option.some.inj hd]
  exact Reader.not_gap_of_mem_firsts hc

/-- A run of characters is read from itself. -/
theorem ReadFrom.characters_eq {run : String} (h : (characters run).ReadFrom written) :
    run = String.ofList written := by
  have hend : BeginsWithout (characters run).goesOn [] := by
    intro c hc
    cases hc
  have hread : Lexeme.characters? (written ++ []) = some ⟨.characters run, written⟩ :=
    h.read_append hend
  simp only [Lexeme.characters?] at hread
  split at hread
  · cases hread
  · obtain ⟨hrun, hspelling⟩ := Lexeme.mk.inj (Option.some.inj hread)
    rw [← Token.characters.inj hrun, hspelling]

end Token

/-- Runs of characters are read in strings only. -/
theorem eq_string_of_transition?_characters {mode : Mode} {transition : Transition}
    (h : mode.transition? .characters = some transition) : mode = .string := by
  have hrules : ∀ rule ∈ mode.rules, rule.reader.kind = .characters → mode = .string := by
    cases mode <;> decide
  obtain ⟨rule, hrule, hkind, -⟩ := Mode.exists_rule_of_transition? h
  exact hrules rule hrule hkind

namespace Token

variable {t u : Token} {transition : Transition} {written text : List Char}

/-- The tokens of a string, the closing quote included. -/
theorem cases_of_transition?_string (h : Mode.string.transition? t.kind = some transition) :
    t = .symbol .doubleQuote ∨ (∃ name, t = .input name) ∨ (∃ c, t = .escape c) ∨
      ∃ run, t = .characters run := by
  have hrules : ∀ rule ∈ Mode.string.rules, rule.reader.kind = .symbol .doubleQuote ∨
      rule.reader.kind = .input ∨ rule.reader.kind = .escape ∨
        rule.reader.kind = .characters := by
    decide
  obtain ⟨rule, hrule, hkind, -⟩ := Mode.exists_rule_of_transition? h
  have hcases := hrules rule hrule
  rw [hkind] at hcases
  cases t with
  | symbol s =>
    have hs : Kind.symbol s = .symbol .doubleQuote := by simpa [kind] using hcases
    exact Or.inl (congrArg symbol (Kind.symbol.inj hs))
  | input name => exact Or.inr (Or.inl ⟨name, rfl⟩)
  | escape c => exact Or.inr (Or.inr (Or.inl ⟨c, rfl⟩))
  | characters run => exact Or.inr (Or.inr (Or.inr ⟨run, rfl⟩))
  | _ => simp [kind] at hcases

/-- No token of a string goes on with the character that begins a quote, a name or an escape. -/
theorem goesOn_eq_false_of_string (h : Mode.string.transition? t.kind = some transition) :
    t.goesOn '"' = false ∧ t.goesOn '$' = false ∧ t.goesOn '\\' = false := by
  rcases cases_of_transition?_string h with rfl | ⟨name, rfl⟩ | ⟨c, rfl⟩ | ⟨run, rfl⟩
  · exact ⟨rfl, rfl, rfl⟩
  · exact ⟨rfl, rfl, rfl⟩
  · exact ⟨rfl, rfl, rfl⟩
  · exact ⟨rfl, rfl, rfl⟩

/-- Tokens that may stand next to each other in a string do not go on into one another. -/
theorem Separable.beginsWithout_goesOn (h : t.Separable u) {first : Transition}
    (ht : Mode.string.transition? t.kind = some first)
    (hu : Mode.string.transition? u.kind = some transition) (hwritten : u.ReadFrom written)
    (text : List Char) : BeginsWithout t.goesOn (written ++ text) := by
  obtain ⟨hquote, hdollar, hslash⟩ := goesOn_eq_false_of_string ht
  rcases cases_of_transition?_string hu with rfl | ⟨name, rfl⟩ | ⟨c, rfl⟩ | ⟨run, rfl⟩
  · obtain ⟨c, tail, rfl, hc⟩ := hwritten.exists_cons_mem_firsts Kind.noConfusion
    rw [List.mem_singleton.1 hc]
    exact beginsWithout_cons hquote
  · obtain ⟨c, tail, rfl, hc⟩ := hwritten.exists_cons_mem_firsts Kind.noConfusion
    rw [List.mem_singleton.1 hc]
    exact beginsWithout_cons hdollar
  · obtain ⟨c, tail, rfl, hc⟩ := hwritten.exists_cons_mem_firsts Kind.noConfusion
    rw [List.mem_singleton.1 hc]
    exact beginsWithout_cons hslash
  · obtain rfl := hwritten.characters_eq
    obtain ⟨c, tail, rfl⟩ := List.exists_cons_of_ne_nil hwritten.ne_nil
    refine beginsWithout_cons ?_
    rcases cases_of_transition?_string ht with rfl | ⟨name, rfl⟩ | ⟨d, rfl⟩ | ⟨run, rfl⟩
    · rfl
    · exact h c (by simp)
    · rfl
    · exact h.elim

/-- A space ends every token but a run of characters. -/
theorem goesOn_space (h : t.kind ≠ .characters) : t.goesOn ' ' = false := by
  cases t with
  | symbol s => cases s <;> rfl
  | characters run => exact absurd rfl h
  | float value =>
    show Lexeme.goesOnNumber ' ' = false
    decide
  | integer n =>
    show Lexeme.goesOnNumber ' ' = false
    decide
  | input name =>
    show Lexeme.isNameChar ' ' = false
    decide
  | _ => rfl

end Token

/-! ### One token behind spaces -/

/-- A written token is read behind spaces, of which there are none in string literals, and the cursor moves on
over it. -/
theorem Cursor.next_of_written {c : Cursor} {t : Token} {transition : Transition}
    {blank written text : List Char} (htransition : c.mode.transition? t.kind = some transition)
    (hwritten : t.ReadFrom written) (htext : BeginsWithout t.goesOn text)
    (hblank : ∀ d ∈ blank, Lexeme.isSpace d = true) (hinside : c.mode = .string → blank = [])
    (hrest : c.rest = blank ++ (written ++ text)) :
    ∃ d, c.next = (.ok (some t), d) ∧ d.context = c.context.apply transition ∧ d.rest = text := by
  have hskip : c.skipGap.rest = written ++ text := by
    by_cases hstring : c.mode = .string
    · rw [skipGap_of_string hstring, hrest, hinside hstring, List.nil_append]
    · refine skipGap_rest_of_blank hstring hblank (gap_eq_nil (hwritten.beginsNoGap ?_ text)) hrest
      intro hkind
      rw [hkind] at htransition
      exact hstring (eq_string_of_transition?_characters htransition)
  exact next_eq_some hwritten.ne_nil hskip (Mode.read_append htransition hwritten htext)

/-! ### From place to place -/

namespace Grammar

variable {p q : Place} {t : Token} {c : Cursor} {written text blank : List Char}

theorem Place.inString_of_characters (hq : p.next? t = some q) (ht : t.kind = .characters) :
    q.inString = true := by
  obtain ⟨⟨transition, htransition, -⟩, hin⟩ := follows_of_next? hq
  rw [ht] at htransition
  have hp := current_context_eq_string_iff.1 (eq_string_of_transition?_characters htransition)
  have hquote : t.isQuote = false := by
    cases t with
    | characters run => rfl
    | _ => cases ht
  rw [hin, hp, hquote]
  rfl

/-- A token with which a string begins or goes on is one of the tokens of strings. -/
theorem Place.transition?_string_of_inString (hq : p.next? t = some q) (h : q.inString = true) :
    ∃ transition, Mode.string.transition? t.kind = some transition := by
  obtain ⟨⟨transition, htransition, -⟩, hin⟩ := follows_of_next? hq
  cases hp : p.inString with
  | true =>
    rw [current_context_eq_string_iff.2 hp] at htransition
    exact ⟨transition, htransition⟩
  | false =>
    rw [h, hp, Bool.false_bne] at hin
    rw [Token.isQuote_iff.1 hin.symm]
    exact ⟨.pop, rfl⟩

/-- What is rendered behind a token does not go on with it. -/
theorem Place.beginsWithout_renderRest {lexemes : List Lexeme} {last : Place}
    (hq : p.next? t = some q) (hlead : q.Leads (lexemes.map (·.token)) last)
    (hwritten : ∀ l ∈ lexemes, l.token.ReadFrom l.spelling)
    (hseparable : (t :: lexemes.map (·.token)).IsChain Token.Separable) :
    BeginsWithout t.goesOn (renderRest q.inString lexemes) := by
  cases lexemes with
  | nil =>
    intro c hc
    cases hc
  | cons l rest =>
    obtain ⟨r, hr, -⟩ := leads_cons_iff.1 hlead
    -- Outside strings a space follows, and inside one the next token does.
    cases hinside : q.inString with
    | false =>
      refine beginsWithout_cons (Token.goesOn_space fun hkind => ?_)
      rw [inString_of_characters hq hkind] at hinside
      cases hinside
    | true =>
      obtain ⟨⟨next, hnext, -⟩, -⟩ := follows_of_next? hr
      rw [current_context_eq_string_iff.2 hinside] at hnext
      obtain ⟨first, hfirst⟩ := transition?_string_of_inString hq hinside
      have hsep := (List.isChain_cons_cons.1 hseparable).1
      exact hsep.beginsWithout_goesOn hfirst hnext (hwritten l List.mem_cons_self) _

/-- At the modes of a place a cursor reads the token that the grammar goes on with there. -/
theorem Place.next_of_next? (hq : p.next? t = some q) (hcontext : c.context = p.context)
    (hblank : ∀ d ∈ blank, Lexeme.isSpace d = true) (hinside : p.inString = true → blank = [])
    (hrest : c.rest = blank ++ (written ++ text)) (hwritten : t.ReadFrom written)
    (htext : BeginsWithout t.goesOn text) :
    ∃ d, c.next = (.ok (some t), d) ∧ d.context = q.context ∧ d.rest = text := by
  obtain ⟨⟨transition, htransition, hq'⟩, -⟩ := follows_of_next? hq
  have hmode : c.mode = p.context.current := congrArg Context.current hcontext
  rw [← hmode] at htransition
  have hstring : c.mode = .string → blank = [] := by
    rw [hmode, current_context_eq_string_iff]
    exact hinside
  obtain ⟨d, hnext, hd, htext⟩ := Cursor.next_of_written htransition hwritten htext hblank hstring hrest
  exact ⟨d, hnext, by rw [hd, hcontext, hq'], htext⟩

/-- From the modes of a place a cursor reads all tokens that the grammar goes on with there. -/
theorem Place.run_of_leads {lexemes : List Lexeme} {tree : Node}
    (hlead : p.Leads (lexemes.map (·.token)) (.done tree)) (hcontext : c.context = p.context)
    (hrest : c.rest = renderRest p.inString lexemes)
    (hwritten : ∀ l ∈ lexemes, l.token.ReadFrom l.spelling)
    (hseparable : (lexemes.map (·.token)).IsChain Token.Separable) :
    c.run.tokens = lexemes.map (·.token) ∧ c.run.error = none := by
  -- With each lexeme the place and the cursor move on together, so both vary in the induction.
  induction lexemes generalizing p c with
  | nil =>
    rw [Cursor.run_of_none (Cursor.next_eq_none (Cursor.skipGap_rest_of_nil hrest))]
    exact ⟨rfl, rfl⟩
  | cons l rest ih =>
    obtain ⟨q, hq, hlead⟩ := leads_cons_iff.1 hlead
    have hbehind : ∀ m ∈ rest, m.token.ReadFrom m.spelling :=
      fun m hm => hwritten m (List.mem_cons_of_mem l hm)
    have hend := beginsWithout_renderRest hq hlead hbehind hseparable
    obtain ⟨-, hin⟩ := follows_of_next? hq
    rw [renderRest, ← hin] at hrest
    have hblank : ∀ e ∈ (if p.inString = true then [] else [' ']), Lexeme.isSpace e = true := by
      intro e he
      split at he
      · exact absurd he List.not_mem_nil
      · rw [List.mem_singleton.1 he]
        rfl
    obtain ⟨d, hnext, hd, htext⟩ := next_of_next? hq hcontext hblank (fun h => if_pos h) hrest
      (hwritten l List.mem_cons_self) hend
    obtain ⟨htokens, herror⟩ := ih hlead hd htext hbehind hseparable.tail
    rw [Cursor.run_of_some hnext]
    exact ⟨congrArg (l.token :: ·) htokens, herror⟩

end Grammar

/-! ### Whole documents -/

section Documents

variable {lexemes : List Lexeme} {tree : Node}

theorem tokensOf_render_of_readFrom
    (hlead : Grammar.Place.start.Leads (lexemes.map (·.token)) (.done tree))
    (hwritten : ∀ l ∈ lexemes, l.token.ReadFrom l.spelling)
    (hseparable : (lexemes.map (·.token)).IsChain Token.Separable) :
    tokensOf (String.ofList (render lexemes)) = .ok (lexemes.map (·.token)) := by
  cases lexemes with
  | nil => cases Grammar.Place.leads_nil_iff.1 hlead
  | cons l rest =>
    obtain ⟨q, hq, hlead⟩ := Grammar.Place.leads_cons_iff.1 hlead
    have hbehind : ∀ m ∈ rest, m.token.ReadFrom m.spelling :=
      fun m hm => hwritten m (List.mem_cons_of_mem l hm)
    have hend := Grammar.Place.beginsWithout_renderRest hq hlead hbehind hseparable
    obtain ⟨-, hin⟩ := Grammar.Place.follows_of_next? hq
    have hquote : q.inString = l.token.isQuote := by
      rw [hin]
      show (false != l.token.isQuote) = _
      rw [Bool.false_bne]
    have hrest : (Cursor.start (String.ofList (render (l :: rest)))).rest =
        [] ++ (l.spelling ++ renderRest q.inString rest) := by
      rw [hquote, Cursor.start, String.toList_ofList, render, List.nil_append]
    obtain ⟨d, hnext, hd, htext⟩ := Grammar.Place.next_of_next? hq rfl
      (fun _ h => absurd h List.not_mem_nil) (fun _ => rfl) hrest (hwritten l List.mem_cons_self) hend
    obtain ⟨htokens, herror⟩ := Grammar.Place.run_of_leads hlead hd htext hbehind hseparable.tail
    have hrun := Cursor.run_of_some hnext
    refine tokensOf_of_run ?_ ?_
    · rw [hrun]
      exact congrArg (l.token :: ·) htokens
    · rw [hrun]
      exact herror

theorem tokensOf_render_of_leads
    (hlead : Grammar.Place.start.Leads (lexemes.map (·.token)) (.done tree))
    (hwritten : ∀ l ∈ lexemes, l.token.WrittenAs l.spelling)
    (hseparable : (lexemes.map (·.token)).IsChain Token.Separable) :
    tokensOf (String.ofList (render lexemes)) = .ok (lexemes.map (·.token)) :=
  tokensOf_render_of_readFrom hlead (fun l hl => (hwritten l hl).readFrom) hseparable

/-- A list of tokens that has a tree is read back from its document. -/
theorem tokensOf_render (htree : treeOf (lexemes.map (·.token)) = .ok tree)
    (hwritten : ∀ l ∈ lexemes, l.token.WrittenAs l.spelling)
    (hseparable : (lexemes.map (·.token)).IsChain Token.Separable) :
    tokensOf (String.ofList (render lexemes)) = .ok (lexemes.map (·.token)) :=
  tokensOf_render_of_leads (Grammar.treeOf_eq_ok_iff.1 htree) hwritten hseparable

/-- A key with a quote in it, numbers and a string of several parts are read back. -/
theorem tokensOf_render_string_in_array :
    tokensOf "\x7b 'it\\'s' = [ 1.5 -7 \"b\\u0041$x.\" ] \x7d" =
      .ok [.symbol .braceOpen, .segment "it's", .symbol .equals, .symbol .bracketOpen, .float 1.5,
        .integer (-7), .symbol .doubleQuote, .characters "b", .escape 'A', .input "$x",
        .characters ".", .symbol .doubleQuote, .symbol .bracketClose, .symbol .braceClose] := by
  have hfloat : IsFloatText ['1', '.', '5'] :=
    ⟨[], ['1'], ['5'], [], Or.inl rfl, ⟨by simp, by simp⟩, ⟨by simp, by simp⟩, Or.inl rfl,
      rfl⟩
  have hname : Token.IsName ['$', 'x'] := ⟨'x', [], rfl, rfl, by simp⟩
  have hkey : (Token.segment "it's").WrittenAs ['\'', 'i', 't', '\\', '\'', 's', '\''] :=
    @Token.WrittenAs.segment ['i', 't', '\'', 's'] (by decide)
  have hrun : (Token.characters "b").WrittenAs ['b'] :=
    @Token.WrittenAs.characters ['b'] (by simp) (by simp)
  have hpoint : (Token.characters ".").WrittenAs ['.'] :=
    @Token.WrittenAs.characters ['.'] (by simp) (by simp)
  have hescape : (Token.escape 'A').WrittenAs ['\\', 'u', '0', '0', '4', '1'] :=
    Token.WrittenAs.escape (by decide)
  refine @tokensOf_render
    [⟨.symbol .braceOpen, ['\x7b']⟩, ⟨.segment "it's", ['\'', 'i', 't', '\\', '\'', 's', '\'']⟩,
      ⟨.symbol .equals, ['=']⟩, ⟨.symbol .bracketOpen, ['[']⟩, ⟨.float 1.5, ['1', '.', '5']⟩,
      ⟨.integer (-7), ['-', '7']⟩, ⟨.symbol .doubleQuote, ['"']⟩, ⟨.characters "b", ['b']⟩,
      ⟨.escape 'A', ['\\', 'u', '0', '0', '4', '1']⟩, ⟨.input "$x", ['$', 'x']⟩,
      ⟨.characters ".", ['.']⟩, ⟨.symbol .doubleQuote, ['"']⟩, ⟨.symbol .bracketClose, [']']⟩,
      ⟨.symbol .braceClose, ['\x7d']⟩] _ rfl ?_ ?_
  · simp only [List.forall_mem_cons]
    exact ⟨.symbol _, hkey, .symbol _, .symbol _, .float hfloat rfl, .integer (-7), .symbol _, hrun,
      hescape, .input hname, hpoint, .symbol _, .symbol _, .symbol _,
      fun l hl => absurd hl List.not_mem_nil⟩
  · simp [Token.Separable, Lexeme.isNameChar]

end Documents

end ConfigLang

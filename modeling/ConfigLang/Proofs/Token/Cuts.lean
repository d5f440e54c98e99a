import ConfigLang.Proofs.Token.Gaps
import ConfigLang.Proofs.Token.Spelled
import ConfigLang.Proofs.Token.Steps

/-!
# Documents as gaps and lexemes

Cutting a document into tokens takes the document apart without a rest: it is the gaps and the spellings of
the tokens, one after the other.

* `Cut` - a token with its spelling and with the gap in front of it.
* `Cut.Between` - what a cursor does from one place to the next.
* `Cursor.CutBy` - the same for all places of a run.
* `Cursor.exists_cut_of_next`, `Cursor.exists_cutBy_of_run` - the cuts of one step and of a run.
* `Cursor.context_next` - what an attempt to read a token does to the modes.
* `tokensOf_loses_and_invents_nothing` - the result.
-/

namespace ConfigLang

/-! ### Cuts -/

/-- A token with its spelling and with the gap in front of it. -/
structure Cut where
  gap : List Char
  lexeme : Lexeme
deriving DecidableEq

/-- The part of a document that is cut off. -/
def Cut.text (cut : Cut) : List Char := cut.gap ++ cut.lexeme.spelling

/-- The document of some cuts, with a gap at its end. -/
def documentOf (cuts : List Cut) (last : List Char) : List Char :=
  cuts.flatMap Cut.text ++ last

theorem documentOf_cons (cut : Cut) (cuts : List Cut) (last : List Char) :
    documentOf (cut :: cuts) last = cut.gap ++ (cut.lexeme.spelling ++ documentOf cuts last) := by
  rw [documentOf, List.flatMap_cons, Cut.text, List.append_assoc, List.append_assoc, documentOf]

theorem documentOf_nil_append (cuts : List Cut) (last : List Char) :
    documentOf cuts [] ++ last = documentOf cuts last := by
  rw [documentOf, documentOf, List.append_nil]

/-- The gap that is skipped in a mode: nothing in a string literal, all spaces and comments elsewhere. -/
def IsGapIn (mode : Mode) (run behind : List Char) : Prop :=
  if mode = .string then run = [] else IsLongestGap run behind

/-- A cursor moves on over a gap and a spelling of the token. The innermost mode at the first place has a
rule for the token, which leads to the modes at the second one. -/
structure Cut.Between (cut : Cut) (c d : Cursor) : Prop where
  rest : c.rest = cut.text ++ d.rest
  offset : d.offset = c.offset + byteLength cut.text
  gap : IsGapIn c.mode cut.gap (cut.lexeme.spelling ++ d.rest)
  ne_nil : cut.lexeme.spelling ≠ []
  spelled : cut.lexeme.token.SpelledAs cut.lexeme.spelling
  modes : ∃ transition, c.mode.transition? cut.lexeme.token.kind = some transition ∧
    d.context = c.context.apply transition

/-- The text in front of a cursor is cut at the places of the given steps, and a gap is left. -/
inductive Cursor.CutBy : Cursor → List (Token × Cursor) → List Cut → List Char → Prop
  | last {c : Cursor} (hgap : IsGapIn c.mode c.rest []) : CutBy c [] [] c.rest
  | cut {c d : Cursor} {cut : Cut} {steps : List (Token × Cursor)} {cuts : List Cut}
    {last : List Char} (hcut : cut.Between c d) (hcuts : CutBy d steps cuts last) :
    CutBy c ((cut.lexeme.token, d) :: steps) (cut :: cuts) last

/-! ### Bytes -/

theorem byteLength_append (text behind : List Char) :
    byteLength (text ++ behind) = byteLength text + byteLength behind := by
  induction text with
  | nil => rw [List.nil_append, byteLength, Nat.zero_add]
  | cons c text ih => rw [List.cons_append, byteLength, byteLength, ih, Nat.add_assoc]

theorem byteLength_pos {text : List Char} (h : text ≠ []) : 0 < byteLength text := by
  obtain ⟨c, rest, rfl⟩ := List.exists_cons_of_ne_nil h
  have hc := c.utf8Size_pos
  rw [byteLength]
  omega

theorem utf8ByteSize_ofList (text : List Char) :
    (String.ofList text).utf8ByteSize = byteLength text := by
  induction text with
  | nil => rfl
  | cons c text ih =>
    rw [String.ofList_cons, String.utf8ByteSize_append, String.utf8ByteSize_singleton, ih, byteLength]

/-- The place behind a part of a document is between two of its characters. -/
theorem isValid_byteLength {source : String} {text behind : List Char}
    (h : source.toList = text ++ behind) : (String.Pos.Raw.mk (byteLength text)).IsValid source := by
  refine String.Pos.Raw.isValid_iff_exists_append.2
    ⟨String.ofList text, String.ofList behind, ?_, ?_⟩
  · rw [← String.ofList_append, ← h, String.ofList_toList]
  · exact String.Pos.Raw.ext (by rw [String.byteIdx_rawEndPos, utf8ByteSize_ofList])

/-! ### One step -/

theorem Cut.Between.offset_lt {cut : Cut} {c d : Cursor} (h : cut.Between c d) :
    c.offset < d.offset := by
  have hpos := byteLength_pos h.ne_nil
  rw [h.offset, Cut.text, byteLength_append]
  omega

namespace Cursor

variable {c d : Cursor} {t : Token} {steps : List (Token × Cursor)} {cuts : List Cut}
  {last : List Char}

/-- What is skipped in front of a cursor. -/
theorem exists_gap (c : Cursor) :
    ∃ run, c.rest = run ++ c.skipGap.rest ∧ c.skipGap.offset = c.offset + byteLength run ∧
      IsGapIn c.mode run c.skipGap.rest := by
  by_cases hmode : c.mode = .string
  · rw [skipGap_of_string hmode]
    exact ⟨[], rfl, rfl, (if_pos hmode).mpr rfl⟩
  · have hskip : c.skipGap = c.advance (gap false c.rest) := if_neg hmode
    have hgap : IsGapIn c.mode (gap false c.rest) (c.rest.drop (gap false c.rest).length) :=
      (if_neg hmode).mpr (isLongestGap_gap c.rest)
    rw [hskip]
    exact ⟨gap false c.rest, (gap_append_drop c.rest).symm, rfl, hgap⟩

/-- In front of a lexeme stand its spelling and the text behind it. -/
theorem rest_eq_spelling_append {lexeme : Lexeme} (h : lexeme.spelling <+: c.rest)
    (transition : Transition) : c.rest = lexeme.spelling ++ (c.pass lexeme transition).rest := by
  obtain ⟨behind, hbehind⟩ := h
  show c.rest = lexeme.spelling ++ c.rest.drop lexeme.spelling.length
  rw [← hbehind, List.drop_left]

/-- Reading a token cuts a gap and a lexeme off the document. The lexeme is what the innermost mode reads behind
the gap. -/
theorem exists_cut_of_next (h : c.next = (.ok (some t), d)) :
    ∃ (cut : Cut) (transition : Transition), cut.lexeme.token = t ∧ cut.Between c d ∧
      c.mode.read (cut.lexeme.spelling ++ d.rest) = some (cut.lexeme, transition) ∧
      d.context = c.context.apply transition := by
  obtain ⟨lexeme, transition, hread, rfl, rfl⟩ := read_of_next_eq_some h
  obtain ⟨run, hrest, hoffset, hgap⟩ := c.exists_gap
  obtain ⟨hne, hprefix⟩ := Mode.ne_nil_and_isPrefix_of_read hread
  obtain ⟨htransition, hspelled⟩ := Mode.spelledAs_of_read hread
  have hbehind := rest_eq_spelling_append hprefix transition
  have hcontext : (c.skipGap.pass lexeme transition).context = c.context.apply transition := by
    show c.skipGap.context.apply transition = _
    rw [c.skipGap_context]
  refine ⟨⟨run, lexeme⟩, transition, rfl, ?_, hbehind ▸ hread, hcontext⟩
  refine ⟨?_, ?_, ?_, hne, hspelled, transition, htransition, hcontext⟩
  · rw [Cut.text, List.append_assoc, ← hbehind]
    exact hrest
  · show c.skipGap.offset + byteLength lexeme.spelling = c.offset + byteLength (run ++ lexeme.spelling)
    rw [hoffset, byteLength_append, Nat.add_assoc]
  · rw [← hbehind]
    exact hgap

/-- What a mode does with the token that is read is what the token's kind asks for. -/
theorem context_of_next (h : c.next = (.ok (some t), d)) :
    ∃ transition, c.mode.transition? t.kind = some transition ∧
      d.context = c.context.apply transition := by
  obtain ⟨cut, -, rfl, hcut, -⟩ := exists_cut_of_next h
  exact hcut.modes

/-- The token that an attempt to read one answers with, if there is one. -/
def token? (c : Cursor) : Option Token := c.next.1.toOption.join

/-- An attempt that answers with no token leaves the modes as they are; with a token, they become what the
token's kind asks for. -/
theorem context_next (c : Cursor) :
    (c.token? = none ∧ c.next.2.context = c.context) ∨
      ∃ t transition, c.token? = some t ∧ c.mode.transition? t.kind = some transition ∧
        c.next.2.context = c.context.apply transition := by
  unfold token?
  cases hnext : c.next with
  | mk outcome d =>
    rcases outcome with e | _ | t
    · refine Or.inl ⟨rfl, ?_⟩
      rw [(unreadable_of_next_eq_error hnext).1]
      exact c.skipGap_context
    · refine Or.inl ⟨rfl, ?_⟩
      rw [(rest_of_next_eq_none hnext).2]
      exact c.skipGap_context
    · obtain ⟨transition, htransition, hd⟩ := context_of_next hnext
      exact Or.inr ⟨t, transition, rfl, htransition, hd⟩

/-! ### All steps -/

/-- Reading all tokens cuts the whole text, if no error stands in the way. -/
theorem exists_cutBy_of_run (herror : c.run.error = none) :
    ∃ cuts last, c.CutBy c.run.steps cuts last := by
  induction c using Cursor.run.induct with
  | case1 c t d hnext _ ih =>
    rw [run_of_some hnext] at herror ⊢
    obtain ⟨cuts, last, hcuts⟩ := ih herror
    obtain ⟨cut, -, rfl, hcut, -⟩ := exists_cut_of_next hnext
    exact ⟨cut :: cuts, last, .cut hcut hcuts⟩
  | case2 c d hnext =>
    rw [run_of_none hnext]
    obtain ⟨hend, -⟩ := rest_of_next_eq_none hnext
    obtain ⟨run, hrest, -, hgap⟩ := c.exists_gap
    rw [hend, List.append_nil] at hrest
    rw [hend, ← hrest] at hgap
    exact ⟨[], c.rest, .last hgap⟩
  | case3 c e d hnext =>
    rw [run_of_error hnext] at herror
    cases herror

/-- The text is the document of its cuts. -/
theorem CutBy.rest_eq (h : c.CutBy steps cuts last) : c.rest = documentOf cuts last := by
  induction h with
  | last => rfl
  | cut hcut _ ih => rw [hcut.rest, ih, documentOf_cons, Cut.text, List.append_assoc]

/-- The tokens of the steps are those of the cuts. -/
theorem CutBy.tokens_eq (h : c.CutBy steps cuts last) :
    steps.map (·.1) = cuts.map (·.lexeme.token) := by
  induction h with
  | last => rfl
  | cut _ _ ih => rw [List.map_cons, List.map_cons, ih]

/-- There are no more cuts than characters. -/
theorem CutBy.length_le (h : c.CutBy steps cuts last) : cuts.length ≤ c.rest.length := by
  induction h with
  | last => exact Nat.zero_le _
  | cut hcut _ ih =>
    have hpos := List.length_pos_iff.2 hcut.ne_nil
    rw [hcut.rest, Cut.text, List.length_append, List.length_append, List.length_cons]
    omega

/-- The places get greater and greater. -/
theorem CutBy.isChain_offsets (h : c.CutBy steps cuts last) :
    (c.offset :: steps.map (·.2.offset)).IsChain (· < ·) := by
  induction h with
  | last => exact .singleton _
  | cut hcut _ ih => exact .cons_cons hcut.offset_lt ih

/-- Between the cursor and a later place stands a part of the text. -/
theorem CutBy.exists_text (h : c.CutBy steps cuts last) {step : Token × Cursor} (hstep : step ∈ steps) :
    ∃ text, c.rest = text ++ step.2.rest ∧ step.2.offset = c.offset + byteLength text := by
  induction h with
  | last => exact absurd hstep List.not_mem_nil
  | @cut c d cut steps cuts last hcut _ ih =>
    rcases List.mem_cons.1 hstep with rfl | hstep
    · exact ⟨cut.text, hcut.rest, hcut.offset⟩
    · obtain ⟨text, hrest, hoffset⟩ := ih hstep
      refine ⟨cut.text ++ text, ?_, ?_⟩
      · rw [hcut.rest, hrest, List.append_assoc]
      · rw [hoffset, hcut.offset, byteLength_append, Nat.add_assoc]

end Cursor

/-! ### Whole documents -/

/-- A document that has tokens is made of their spellings and of the gaps between them. The places behind
the tokens get greater with each token and are always between two characters, so that there are no more
tokens than characters. -/
theorem tokensOf_loses_and_invents_nothing {source : String} {tokens : List Token}
    (h : tokensOf source = .ok tokens) :
    (∃ cuts last, (Cursor.start source).CutBy (Cursor.start source).run.steps cuts last ∧
      cuts.map (·.lexeme.token) = tokens ∧ source.toList = documentOf cuts last) ∧
    (0 :: (Cursor.start source).run.steps.map (·.2.offset)).IsChain (· < ·) ∧
    (∀ step ∈ (Cursor.start source).run.steps, (String.Pos.Raw.mk step.2.offset).IsValid source) ∧
    tokens.length ≤ source.toList.length := by
  obtain ⟨rfl, herror⟩ := run_of_tokensOf h
  obtain ⟨cuts, last, hcuts⟩ := Cursor.exists_cutBy_of_run herror
  have htokens : (Cursor.start source).run.tokens = cuts.map (·.lexeme.token) := hcuts.tokens_eq
  refine ⟨⟨cuts, last, hcuts, htokens.symm, hcuts.rest_eq⟩, hcuts.isChain_offsets, ?_, ?_⟩
  · intro step hstep
    obtain ⟨text, hrest, hoffset⟩ := hcuts.exists_text hstep
    rw [hoffset, Cursor.start, Nat.zero_add]
    exact isValid_byteLength hrest
  · rw [htokens, List.length_map]
    exact hcuts.length_le

/-- A comment, a character of two bytes, and three spellings that are not how the tokens are written. -/
theorem tokensOf_commented_array_loses_nothing :
    let source := "// \u00e9\n\x7b a=[0x1F -1_0\t\"\u00e9\\n\"] \x7d"
    let tokens : List Token :=
      [.symbol .braceOpen, .segment "a", .symbol .equals, .symbol .bracketOpen, .integer 31,
        .integer (-10), .symbol .doubleQuote, .characters "\u00e9", .escape '\n',
        .symbol .doubleQuote, .symbol .bracketClose, .symbol .braceClose]
    tokensOf source = .ok tokens ∧
      (∃ cuts last, (Cursor.start source).CutBy (Cursor.start source).run.steps cuts last ∧
        cuts.map (·.lexeme.token) = tokens ∧ source.toList = documentOf cuts last) ∧
      (0 :: (Cursor.start source).run.steps.map (·.2.offset)).IsChain (· < ·) := by
  intro source tokens
  have htokens : tokensOf source = .ok tokens := by
    decide +kernel
  obtain ⟨hcuts, hoffsets, -⟩ := tokensOf_loses_and_invents_nothing htokens
  exact ⟨htokens, hcuts, hoffsets⟩

end ConfigLang

import ConfigLang.Proofs.Token.Gaps

/-!
# Steps of a cursor

What skipping a gap and reading a token do to a cursor, in terms of the text in front of it.

* `Cursor.skipGap_rest_of_gap` - the gap at the start of the text is skipped.
* `Cursor.skipGap_rest_of_blank` - spaces are skipped up to a text that begins with no gap.
* `Cursor.next_eq_pass`, `Cursor.next_eq_some`, `Cursor.next_eq_none`, `Cursor.next_eq_error` - a token,
  the end of the document, and a place where nothing can be read.
* `Cursor.read_of_next_eq_some`, `Cursor.rest_of_next_eq_none`, `Cursor.unreadable_of_next_eq_error` - all that
  these three can be.
* `Cursor.run_of_some`, `Cursor.run_of_none`, `Cursor.run_of_error` - what they mean for all tokens.
* `tokensOf_of_run`, `run_of_tokensOf`, `error_of_tokensOf` - what they mean for a document.
-/

namespace ConfigLang

/-! ### Gaps -/

/-- No gap begins with the text: its first character is neither a space nor a slash. -/
def BeginsNoGap (text : List Char) : Prop :=
  ∀ c, text.head? = some c → Lexeme.isSpace c = false ∧ c ≠ '/'

theorem gap_eq_nil {text : List Char} (h : BeginsNoGap text) : gap false text = [] := by
  refine gap_eq_nil_iff.2 ⟨fun c hc => (h c hc).1, fun rest heq => ?_⟩
  exact (h '/' (by rw [heq]; rfl)).2 rfl

namespace Cursor

variable {c d : Cursor} {t : Token} {written text : List Char}

theorem skipGap_context (c : Cursor) : c.skipGap.context = c.context := by
  unfold skipGap
  split <;> rfl

theorem skipGap_rest_congr (hcontext : c.context = d.context) (hrest : c.rest = d.rest) :
    c.skipGap.rest = d.skipGap.rest := by
  have hmode : c.mode = d.mode := congrArg Context.current hcontext
  rw [skipGap, skipGap, hmode, hrest]
  split
  · exact hrest
  · show c.rest.drop _ = d.rest.drop _
    rw [hrest]

theorem skipGap_of_string (h : c.mode = .string) : c.skipGap = c := if_pos h

theorem skipGap_of_gap_eq_nil (h : gap false c.rest = []) : c.skipGap = c := by
  rw [skipGap, h]
  split <;> rfl

theorem skipGap_rest_of_nil (h : c.rest = []) : c.skipGap.rest = [] := by
  rw [skipGap_of_gap_eq_nil (by rw [h]; rfl), h]

/-- The gap at the start of the text is skipped. -/
theorem skipGap_rest_of_gap {run : List Char} (h : c.mode ≠ .string) (hrest : c.rest = run ++ text)
    (hgap : gap false (run ++ text) = run) : c.skipGap.rest = text := by
  rw [skipGap, if_neg h, hrest, hgap]
  show c.rest.drop run.length = text
  rw [hrest, List.drop_left]

/-- Spaces are skipped up to a text that begins with no gap. -/
theorem skipGap_rest_of_blank {blank : List Char} (h : c.mode ≠ .string)
    (hblank : ∀ c ∈ blank, Lexeme.isSpace c = true) (htext : gap false text = [])
    (hrest : c.rest = blank ++ text) : c.skipGap.rest = text := by
  have hgap : gap false (blank ++ text) = blank := by
    rw [gap_append_of_spaces hblank, htext, List.append_nil]
  exact skipGap_rest_of_gap h hrest hgap

/-- Behind a gap there is none. -/
theorem skipGap_skipGap (c : Cursor) : c.skipGap.skipGap = c.skipGap := by
  by_cases hmode : c.mode = .string
  · rw [skipGap_of_string hmode, skipGap_of_string hmode]
  · have hmode' : c.skipGap.mode ≠ .string := by
      rwa [mode, c.skipGap_context]
    have hskip : c.skipGap = c.advance (gap false c.rest) := if_neg hmode
    have hgap : gap false c.skipGap.rest = [] := by
      rw [hskip]
      exact gap_behind_gap (gap_append_drop c.rest).symm
    rw [skipGap, if_neg hmode', hgap]
    rfl

/-! ### One token -/

/-- The next token is what the innermost mode reads behind the gap, and the cursor moves on over it. -/
theorem next_eq_pass {transition : Transition} (hne : written ≠ [])
    (hrest : c.skipGap.rest = written ++ text)
    (hread : c.mode.read (written ++ text) = some (⟨t, written⟩, transition)) :
    c.next = (.ok (some t), c.skipGap.pass ⟨t, written⟩ transition) := by
  have hmode : c.skipGap.mode = c.mode := congrArg Context.current c.skipGap_context
  rw [next]
  simp only [hrest, hmode, hread, List.append_eq_nil_iff, hne, false_and, if_false]

theorem next_eq_some {transition : Transition} (hne : written ≠ [])
    (hrest : c.skipGap.rest = written ++ text)
    (hread : c.mode.read (written ++ text) = some (⟨t, written⟩, transition)) :
    ∃ d, c.next = (.ok (some t), d) ∧ d.context = c.context.apply transition ∧ d.rest = text := by
  refine ⟨_, next_eq_pass hne hrest hread, ?_, ?_⟩
  · show c.skipGap.context.apply transition = _
    rw [skipGap_context]
  · show c.skipGap.rest.drop written.length = text
    rw [hrest, List.drop_left]

theorem next_eq_none (h : c.skipGap.rest = []) : c.next = (.ok none, c.skipGap) := by
  rw [next]
  exact if_pos h

/-- Where the innermost mode reads nothing behind the gap, the cursor stops. -/
theorem next_eq_error (hne : c.skipGap.rest ≠ []) (hread : c.mode.read c.skipGap.rest = none) :
    c.next = (.error c.skipGap.unreadable, c.skipGap) := by
  have hmode : c.skipGap.mode = c.mode := congrArg Context.current c.skipGap_context
  rw [next]
  simp only [if_neg hne, hmode, hread]

/-- All that reading a token does: the innermost mode reads a lexeme behind the gap, and the cursor moves
on over both. -/
theorem read_of_next_eq_some (h : c.next = (.ok (some t), d)) :
    ∃ lexeme transition, c.mode.read c.skipGap.rest = some (lexeme, transition) ∧
      lexeme.token = t ∧ d = c.skipGap.pass lexeme transition := by
  have hmode : c.skipGap.mode = c.mode := congrArg Context.current c.skipGap_context
  simp only [next, hmode] at h
  split at h
  · cases (Prod.mk.inj h).1
  · split at h
    next lexeme transition hread =>
      obtain ⟨ht, rfl⟩ := Prod.mk.inj h
      exact ⟨lexeme, transition, hread, Option.some.inj (Except.ok.inj ht), rfl⟩
    · cases (Prod.mk.inj h).1

/-- The document ends behind the gap. -/
theorem rest_of_next_eq_none (h : c.next = (.ok none, d)) : c.skipGap.rest = [] ∧ d = c.skipGap := by
  simp only [next] at h
  split at h
  next hrest => exact ⟨hrest, (Prod.mk.inj h).2.symm⟩
  · split at h
    · cases Except.ok.inj (Prod.mk.inj h).1
    · cases (Prod.mk.inj h).1

/-- All that it means that no token is read: there is text behind the gap, and no rule applies to it. -/
theorem unreadable_of_next_eq_error {e : Unreadable} (h : c.next = (.error e, d)) :
    d = c.skipGap ∧ d.rest ≠ [] ∧ e = d.unreadable ∧ d.next = (.error e, d) := by
  have hnext := h
  simp only [next] at h
  split at h
  · cases (Prod.mk.inj h).1
  next hrest =>
    split at h
    · cases (Prod.mk.inj h).1
    next hread =>
      obtain ⟨he, rfl⟩ := Prod.mk.inj h
      refine ⟨rfl, hrest, (Except.error.inj he).symm, ?_⟩
      rw [← hnext, next, next, skipGap_skipGap]

/-! ### All tokens -/

theorem run_of_some (h : c.next = (.ok (some t), d)) : c.run = d.run.cons t d := by
  rw [run]
  split
  next h' =>
    rw [h'] at h
    obtain ⟨ht, rfl⟩ := Prod.mk.inj h
    obtain rfl := Option.some.inj (Except.ok.inj ht)
    rfl
  next h' =>
    rw [h'] at h
    cases (Prod.mk.inj h).1
  next h' =>
    rw [h'] at h
    cases (Prod.mk.inj h).1

theorem run_of_none (h : c.next = (.ok none, d)) : c.run = ⟨[], none, d⟩ := by
  rw [run]
  split
  next h' =>
    rw [h'] at h
    cases (Prod.mk.inj h).1
  next h' =>
    rw [h'] at h
    rw [(Prod.mk.inj h).2]
  next h' =>
    rw [h'] at h
    cases (Prod.mk.inj h).1

theorem run_of_error {e : Unreadable} (h : c.next = (.error e, d)) : c.run = ⟨[], some e, d⟩ := by
  rw [run]
  split
  next h' =>
    rw [h'] at h
    cases (Prod.mk.inj h).1
  next h' =>
    rw [h'] at h
    cases (Prod.mk.inj h).1
  next h' =>
    rw [h'] at h
    obtain ⟨he, rfl⟩ := Prod.mk.inj h
    rw [Except.error.inj he]

end Cursor

theorem run_of_tokensOf {source : String} {tokens : List Token} (h : tokensOf source = .ok tokens) :
    (Cursor.start source).run.tokens = tokens ∧ (Cursor.start source).run.error = none := by
  rw [tokensOf] at h
  split at h
  next herror => exact ⟨Except.ok.inj h, herror⟩
  · cases h

theorem error_of_tokensOf {source : String} {e : Unreadable} (h : tokensOf source = .error e) :
    (Cursor.start source).run.error = some e := by
  rw [tokensOf] at h
  split at h
  · cases h
  next herror => rw [herror, Except.error.inj h]

theorem tokensOf_of_run {source : String} {tokens : List Token}
    (htokens : (Cursor.start source).run.tokens = tokens)
    (herror : (Cursor.start source).run.error = none) : tokensOf source = .ok tokens := by
  rw [tokensOf]
  simp only [herror, htokens]

end ConfigLang

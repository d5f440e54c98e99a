import ConfigLang.Proofs.Token.Layout
import ConfigLang.Proofs.Token.OpenKeys
import ConfigLang.Proofs.Token.SyntaxErrors
import ConfigLang.Proofs.Token.Unreadable

/-!
# Comments put into a document

A comment on a line of its own can be put between two tokens of a document. The document keeps its tokens,
unless a key in front of the comment begins with a quote that nothing closes: such a key is read without
quotes, and a quote in the comment closes it.

* `Cursor.ReadsTo` - what is cut off up to a later place of a run.
* `withComment` - a text with a comment in front of it.
* `Cursor.ReadsTo.read_withComment` - with the comment behind it a token is read as before.
* `Cursor.ReadsTo.run_withComment_iff` - the tokens of a run with the comment at a later place.
* `comments_are_harmless_behind_closed_keys` - the result.
* `comment_closes_a_key` - a document that changes.
-/

namespace ConfigLang

open Lexeme

/-! ### Places -/

/-- Reading goes on from the first cursor to the second one and cuts the given tokens off, each with the gap
in front of it. -/
inductive Cursor.ReadsTo : Cursor → List Cut → Cursor → Prop
  | here (c : Cursor) : ReadsTo c [] c
  | cut {c d e : Cursor} {cut : Cut} {cuts : List Cut} (hcut : cut.Between c d)
    (hnext : c.next = (.ok (some cut.lexeme.token), d)) (hbehind : ReadsTo d cuts e) :
    ReadsTo c (cut :: cuts) e

namespace Cursor

variable {c d e : Cursor} {cuts : List Cut}

/-- Each place of a run is read to. -/
theorem exists_readsTo (h : d = c ∨ ∃ t, (t, d) ∈ c.run.steps) : ∃ cuts, c.ReadsTo cuts d := by
  induction c using Cursor.run.induct with
  | case1 c t next hnext _ ih =>
    rcases h with rfl | ⟨u, hu⟩
    · exact ⟨[], .here d⟩
    · rw [run_of_some hnext] at hu
      have hd : d = next ∨ ∃ u, (u, d) ∈ next.run.steps := by
        rcases List.mem_cons.1 hu with heq | hu
        · exact Or.inl (Prod.mk.inj heq).2
        · exact Or.inr ⟨u, hu⟩
      obtain ⟨cuts, hcuts⟩ := ih hd
      obtain ⟨cut, -, rfl, hcut, -⟩ := exists_cut_of_next hnext
      exact ⟨cut :: cuts, .cut hcut hnext hcuts⟩
  | case2 c next hnext =>
    rcases h with rfl | ⟨u, hu⟩
    · exact ⟨[], .here d⟩
    · rw [run_of_none hnext] at hu
      cases hu
  | case3 c error next hnext =>
    rcases h with rfl | ⟨u, hu⟩
    · exact ⟨[], .here d⟩
    · rw [run_of_error hnext] at hu
      cases hu

/-- The text in front of a cursor is made of the cuts up to a later place and of the text there. -/
theorem ReadsTo.rest_eq (h : c.ReadsTo cuts e) : c.rest = documentOf cuts e.rest := by
  induction h with
  | here => rfl
  | cut hcut _ _ ih => rw [documentOf_cons, ← ih, hcut.rest, Cut.text, List.append_assoc]

theorem ReadsTo.rest_eq_append (h : c.ReadsTo cuts e) : c.rest = documentOf cuts [] ++ e.rest := by
  rw [documentOf_nil_append, h.rest_eq]

/-- No place behind a token is inside a hexadecimal number. -/
theorem ReadsTo.hexInteger?_eq_none (h : c.ReadsTo cuts e) (hnone : hexInteger? ('0' :: c.rest) = none) :
    hexInteger? ('0' :: documentOf cuts []) = none := by
  refine hexInteger?_of_next h.rest_eq_append (fun tail hx => ?_) hnone
  cases h with
  | here => cases hx
  | cut hcut hnext hbehind =>
    refine ⟨_, _, hnext, ?_⟩
    rw [hbehind.rest_eq_append, List.length_append]
    exact Nat.le_add_left _ _

/-- What is read of a text does not depend on where it stands, nor on the gap in front of it. -/
theorem run_congr (herror : c.run.error = none) {c' : Cursor} (hcontext : c'.context = c.context)
    (hrest : c'.skipGap.rest = c.skipGap.rest) :
    c'.run.error = none ∧ c'.run.tokens = c.run.tokens := by
  induction c using Cursor.run.induct generalizing c' with
  | case1 c t d hnext _ ih =>
    obtain ⟨l, transition, hread, rfl, rfl⟩ := read_of_next_eq_some hnext
    obtain ⟨hne, hprefix⟩ := Mode.ne_nil_and_isPrefix_of_read hread
    have hbehind := rest_eq_spelling_append hprefix transition
    have hmode : c'.mode = c.mode := congrArg Context.current hcontext
    rw [hbehind, ← hmode] at hread
    obtain ⟨d', hnext', hcontext', hrest'⟩ := next_eq_some hne (hrest.trans hbehind) hread
    have hcontexts : d'.context = (c.skipGap.pass l transition).context := by
      rw [hcontext', hcontext]
      show _ = c.skipGap.context.apply transition
      rw [skipGap_context]
    rw [run_of_some hnext] at herror ⊢
    rw [run_of_some hnext']
    obtain ⟨herror', htokens⟩ := ih herror hcontexts (skipGap_rest_congr hcontexts hrest')
    exact ⟨herror', congrArg (List.cons l.token) htokens⟩
  | case2 c d hnext =>
    rw [run_of_none hnext, run_of_none (next_eq_none (hrest.trans (rest_of_next_eq_none hnext).1))]
    exact ⟨rfl, rfl⟩
  | case3 c e d hnext =>
    rw [run_of_error hnext] at herror
    cases herror

end Cursor

/-! ### A comment in front of a text -/

/-- A space, two slashes, the comment and a line break, with a text behind them. -/
def withComment (comment behind : List Char) : List Char :=
  ' ' :: '/' :: '/' :: (comment ++ '\n' :: behind)

section WithComment

variable {comment text behind : List Char}

/-- The comment is part of the gap in front of the text. -/
theorem gap_withComment (hline : '\n' ∉ comment) (behind : List Char) :
    gap false (withComment comment behind) = withComment comment (gap false behind) := by
  have hbreak : ∀ c ∈ comment, c ≠ '\n' := by
    rintro c hc rfl
    exact hline hc
  have hend : EndsLine ('\n' :: behind) := fun c hc => (Option.some.inj hc).symm
  rw [withComment, gap_space rfl, gap, gap_true_eq hbreak hend, gap_space rfl, withComment]

/-- In a text that closes no key it is the comment that decides, unless a quote stands right behind it. -/
theorem isChain_withComment_iff (hchain : List.IsChain Escapes (text ++ behind))
    (hfirst : behind.head? ≠ some '\'') :
    List.IsChain Escapes (text ++ withComment comment behind) ↔ List.IsChain Escapes ('/' :: comment) := by
  obtain ⟨htext, hbehind, -⟩ := List.isChain_append.1 hchain
  constructor
  · intro h
    have hsuffix := (List.isChain_append.1 h).2.1
    rw [withComment, List.isChain_cons_cons, List.isChain_cons_cons, ← List.cons_append] at hsuffix
    exact (List.isChain_append.1 hsuffix.2.2).1
  · intro hcomment
    have hbreak : List.IsChain Escapes ('\n' :: behind) :=
      .cons hbehind fun c hc hquote => absurd (hquote ▸ hc) hfirst
    have hline : List.IsChain Escapes ('/' :: (comment ++ '\n' :: behind)) := by
      rw [← List.cons_append]
      refine List.isChain_append.2 ⟨hcomment, hbreak, fun _ _ c hc hquote => ?_⟩
      rw [hquote] at hc
      cases hc
    refine List.isChain_append.2 ⟨htext, ?_, fun _ _ c hc hquote => ?_⟩
    · rw [withComment, List.isChain_cons_cons, List.isChain_cons_cons]
      exact ⟨fun h => absurd h (by decide), fun h => absurd h (by decide), hline⟩
    · rw [hquote] at hc
      cases hc

end WithComment

namespace Cursor

variable {c d e : Cursor} {l : Lexeme} {transition : Transition} {cut : Cut} {cuts : List Cut}
  {comment : List Char}

/-- At a place outside string literals behind an open key no quote comes first. -/
theorem ReadsTo.not_quote (h : d.ReadsTo cuts e) (hmode : e.mode ≠ .string)
    (hread : c.mode.read (l.spelling ++ d.rest) = some (l, transition))
    (hcontext : d.context = c.context.apply transition)
    (hchain : List.IsChain Escapes (l.spelling ++ d.rest)) : e.rest.head? ≠ some '\'' := by
  induction h generalizing c l transition with
  | here => exact not_quote_behind hread hcontext hchain hmode
  | cut hcut hnext _ ih =>
    obtain ⟨transition', hread', hcontext'⟩ := read_of_between hcut hnext
    have hrest := (List.isChain_append.1 hchain).2.1
    rw [hcut.rest, Cut.text, List.append_assoc] at hrest
    exact ih hmode hread' hcontext' (List.isChain_append.1 hrest).2.1

/-- Behind an open key it is the comment that decides whether the text closes it. -/
theorem ReadsTo.isChain_withComment_iff (h : d.ReadsTo cuts e) (hmode : e.mode ≠ .string)
    (hread : c.mode.read (l.spelling ++ d.rest) = some (l, transition))
    (hcontext : d.context = c.context.apply transition) (hopen : l.IsOpenKey) :
    List.IsChain Escapes (l.spelling ++ documentOf cuts [] ++ withComment comment e.rest) ↔
      List.IsChain Escapes ('/' :: comment) := by
  have hchain := (Mode.isChain_of_isOpenKey hread hopen).2
  have hfirst := h.not_quote hmode hread hcontext hchain
  rw [h.rest_eq_append, ← List.append_assoc] at hchain
  exact ConfigLang.isChain_withComment_iff hchain hfirst

/-- In front of a later place the text begins as it did. -/
theorem ReadsTo.head?_eq (h : c.ReadsTo cuts e) (hcuts : cuts ≠ []) (last : List Char) :
    (documentOf cuts last).head? = c.rest.head? := by
  rw [h.rest_eq]
  cases h with
  | here => exact absurd rfl hcuts
  | @cut c d e cut cuts hcut _ _ =>
    have hne : cut.gap ++ cut.lexeme.spelling ≠ [] :=
      List.append_ne_nil_of_right_ne_nil cut.gap hcut.ne_nil
    rw [documentOf_cons, documentOf_cons, ← List.append_assoc, ← List.append_assoc,
      List.head?_append_of_ne_nil _ hne, List.head?_append_of_ne_nil _ hne]

/-- Whether the text begins with a key in quotes is seen in front of the comment, unless that closes it. -/
theorem ReadsTo.quotedSegment?_withComment (h : d.ReadsTo cuts e) (hmode : e.mode ≠ .string)
    (hread : c.mode.read (l.spelling ++ d.rest) = some (l, transition)) (hstring : c.mode ≠ .string)
    (hcontext : d.context = c.context.apply transition)
    (hclosed : ¬ l.IsOpenKey ∨ List.IsChain Escapes ('/' :: comment)) :
    quotedSegment? (l.spelling ++ documentOf cuts [] ++ withComment comment e.rest) =
      quotedSegment? (l.spelling ++ documentOf cuts []) := by
  have hne := (Mode.ne_nil_and_isPrefix_of_read hread).1
  by_cases hquote : l.spelling.head? = some '\''
  · have hhead : (l.spelling ++ d.rest).head? = some '\'' := by
      rw [List.head?_append_of_ne_nil _ hne, hquote]
    rcases Mode.closed_or_open_of_quote hread hstring hhead with hkey | ⟨hnone, hopen, -⟩
    · have hends := Reader.endsBy (r := .quotedSegment) Reader.noConfusion hkey
      rw [List.append_assoc]
      exact (hends.read_append fun _ _ => rfl).trans (hends.read_append fun _ _ => rfl).symm
    · have hcomment := hclosed.resolve_left (not_not.2 hopen)
      rw [h.rest_eq_append, ← List.append_assoc] at hnone
      rw [quotedSegment?_eq_none_of_append hnone, quotedSegment?_eq_none_iff]
      exact fun _ => (h.isChain_withComment_iff hmode hread hcontext hopen).2 hcomment
  · have hnone : ∀ text, quotedSegment? (l.spelling ++ text) = none := fun text => by
      rw [quotedSegment?_eq_none_iff, List.head?_append_of_ne_nil _ hne]
      exact fun h => absurd h hquote
    rw [List.append_assoc, hnone, hnone]

/-- With a comment at a later place a token is read as before, unless the comment closes it. -/
theorem ReadsTo.read_withComment (h : d.ReadsTo cuts e) (hmode : e.mode ≠ .string)
    (hread : c.mode.read (l.spelling ++ d.rest) = some (l, transition))
    (hcontext : d.context = c.context.apply transition)
    (hclosed : ¬ l.IsOpenKey ∨ List.IsChain Escapes ('/' :: comment)) :
    c.mode.read (l.spelling ++ documentOf cuts (withComment comment e.rest)) = some (l, transition) := by
  by_cases hstring : c.mode = .string
  · refine Mode.read_in_string hread (Or.inl hstring) fun hpop => h.head?_eq ?_ _
    -- Only the quote that closes the literal can be in front of the comment.
    rintro rfl
    cases h with
    | here =>
      have hends := Context.of_apply_ne_string (Mode.transition_of_string hread)
        (ne_of_eq_of_ne (congrArg Context.current hcontext.symm) hmode)
      exact hpop (hends.resolve_left (absurd hstring))
  · have hquote := h.quotedSegment?_withComment hmode hread hstring hcontext hclosed
    have hhex := h.hexInteger?_eq_none
    rw [h.rest_eq_append] at hread hhex
    have hkept := Mode.read_of_append hread hhex
    rw [← documentOf_nil_append, ← List.append_assoc]
    exact Mode.read_append_space hkept hstring rfl hquote

/-- An open key in front of the comment is the same token as before only if the comment does not close it. -/
theorem ReadsTo.isChain_of_same_token (h : d.ReadsTo cuts e) (hmode : e.mode ≠ .string)
    (hread : c.mode.read (l.spelling ++ d.rest) = some (l, transition))
    (hcontext : d.context = c.context.apply transition) (hopen : l.IsOpenKey) {other : Lexeme}
    {transition' : Transition}
    (hread' : c.mode.read (l.spelling ++ documentOf cuts (withComment comment e.rest)) =
      some (other, transition'))
    (htoken : other.token = l.token) : List.IsChain Escapes ('/' :: comment) := by
  rw [← h.isChain_withComment_iff hmode hread hcontext hopen]
  rw [h.rest_eq_append, ← List.append_assoc] at hread
  rw [← documentOf_nil_append, ← List.append_assoc] at hread'
  have hnone := quotedSegment?_eq_none_of_same_token hread hopen rfl hread' htoken
  have hquote : (l.spelling ++ documentOf cuts [] ++ withComment comment e.rest).head? = some '\'' := by
    rw [List.append_assoc]
    exact hopen.head?_append _
  exact quotedSegment?_eq_none_iff.1 hnone hquote

/-- The gap in front of a token is the same if a comment is put in at a later place. -/
theorem ReadsTo.skipGap_withComment (h : d.ReadsTo cuts e) (hcut : cut.Between c d) {c' : Cursor}
    (hcontext : c'.context = c.context)
    (hrest : c'.rest = documentOf (cut :: cuts) (withComment comment e.rest)) :
    c'.skipGap.rest = cut.lexeme.spelling ++ documentOf cuts (withComment comment e.rest) := by
  have hmode : c'.mode = c.mode := congrArg Context.current hcontext
  rw [documentOf_cons] at hrest
  by_cases hstring : c.mode = .string
  · rw [skipGap_of_string (hmode.trans hstring), hrest, (if_pos hstring).mp hcut.gap, List.nil_append]
  · have hgap : IsLongestGap cut.gap (cut.lexeme.spelling ++ d.rest) := (if_neg hstring).mp hcut.gap
    have hslash : (documentOf cuts (withComment comment e.rest)).head? = some '/' →
        d.rest.head? = some '/' := by
      intro hfirst
      by_cases hcuts : cuts = []
      · subst hcuts
        cases hfirst
      · rwa [h.head?_eq hcuts] at hfirst
    have hnone := gap_append_eq_nil hcut.ne_nil hgap.gap_eq_nil hslash
    have hfirst : (cut.lexeme.spelling ++ documentOf cuts (withComment comment e.rest)).head? =
        (cut.lexeme.spelling ++ d.rest).head? := by
      rw [List.head?_append_of_ne_nil _ hcut.ne_nil, List.head?_append_of_ne_nil _ hcut.ne_nil]
    refine skipGap_rest_of_gap (hmode ▸ hstring) hrest ?_
    rw [hgap.isGap.gap_append hfirst, hnone, List.append_nil]

/-- With a comment in front of it the same text is read. -/
theorem run_withComment (hmode : c.mode ≠ .string) (hline : '\n' ∉ comment) (herror : c.run.error = none)
    {c' : Cursor} (hcontext : c'.context = c.context) (hrest : c'.rest = withComment comment c.rest) :
    c'.run.error = none ∧ c'.run.tokens = c.run.tokens := by
  have hmode' : c'.mode ≠ .string := by
    rwa [mode, hcontext]
  have hbehind : c.rest = gap false c.rest ++ c.skipGap.rest := by
    rw [skipGap, if_neg hmode]
    exact (gap_append_drop c.rest).symm
  have htext : c'.rest = withComment comment (gap false c.rest) ++ c.skipGap.rest := by
    rw [hrest, withComment, withComment, List.cons_append, List.cons_append, List.cons_append,
      List.append_assoc, List.cons_append, ← hbehind]
  refine run_congr herror hcontext (skipGap_rest_of_gap hmode' htext ?_)
  rw [← htext, hrest, gap_withComment hline]

/-- The tokens of a run stay the same with a comment at a later place, unless the comment closes a key in
front of it. -/
theorem ReadsTo.run_withComment_iff (h : c.ReadsTo cuts e) (hmode : e.mode ≠ .string)
    (hline : '\n' ∉ comment) (herror : c.run.error = none) {c' : Cursor} (hcontext : c'.context = c.context)
    (hrest : c'.rest = documentOf cuts (withComment comment e.rest)) :
    c'.run.error = none ∧ c'.run.tokens = c.run.tokens ↔
      (∀ cut ∈ cuts, ¬ cut.lexeme.IsOpenKey) ∨ List.IsChain Escapes ('/' :: comment) := by
  -- The places in the new text have other offsets. What they share with the old ones are the modes.
  induction h generalizing c' with
  | here c =>
    have hrun := run_withComment hmode hline herror hcontext hrest
    exact ⟨fun _ => Or.inl fun cut hcut => absurd hcut List.not_mem_nil, fun _ => hrun⟩
  | @cut c d e cut cuts hcut hnext hbehind ih =>
    obtain ⟨transition, hread, hcontext'⟩ := read_of_between hcut hnext
    have hmode' : c'.mode = c.mode := congrArg Context.current hcontext
    have hskip := hbehind.skipGap_withComment hcut hcontext hrest
    rw [run_of_some hnext] at herror ⊢
    by_cases hclosed : ¬ cut.lexeme.IsOpenKey ∨ List.IsChain Escapes ('/' :: comment)
    · have hread' := hbehind.read_withComment hmode hread hcontext' hclosed
      rw [← hmode'] at hread'
      obtain ⟨d', hnext', hd', hrest'⟩ := next_eq_some hcut.ne_nil hskip hread'
      have hiff := ih hmode herror (by rw [hd', hcontext, hcontext']) hrest'
      rw [run_of_some hnext']
      constructor
      · rintro ⟨herror', htokens⟩
        rcases hiff.1 ⟨herror', (List.cons.inj htokens).2⟩ with hall | hcomment
        · exact hclosed.imp_left fun hnot => List.forall_mem_cons.2 ⟨hnot, hall⟩
        · exact Or.inr hcomment
      · intro hright
        have hrest'' := hright.imp_left fun hall other hother => hall other (List.mem_cons_of_mem cut hother)
        obtain ⟨herror', htokens⟩ := hiff.2 hrest''
        exact ⟨herror', congrArg (List.cons cut.lexeme.token) htokens⟩
    · obtain ⟨hopen, hcomment⟩ := not_or.1 hclosed
      constructor
      · rintro ⟨-, htokens⟩
        obtain ⟨d', hnext', -, -⟩ := exists_next_of_tokens_cons htokens
        obtain ⟨l, transition', hread', htoken, -⟩ := read_of_next_eq_some hnext'
        rw [hmode', hskip] at hread'
        exact absurd (hbehind.isChain_of_same_token hmode hread hcontext' (not_not.1 hopen) hread' htoken)
          hcomment
      · rintro (hall | hcomment')
        · exact absurd (hall cut List.mem_cons_self) hopen
        · exact absurd hcomment' hcomment

end Cursor

/-! ### Whole documents -/

/-- A comment on its own line at a place behind a token or at the start of a document, outside string literals.
The document keeps its tokens exactly if no key in front of the place begins with a quote that is not closed, or
each quote in the comment has a backslash right in front of it. -/
theorem comments_are_harmless_behind_closed_keys {source : String} {tokens : List Token}
    (h : tokensOf source = .ok tokens) {d : Cursor}
    (hplace : d = Cursor.start source ∨ ∃ t, (t, d) ∈ (Cursor.start source).run.steps)
    (hmode : d.mode ≠ .string) :
    ∃ cuts, (Cursor.start source).ReadsTo cuts d ∧ source.toList = documentOf cuts d.rest ∧
      ∀ comment, '\n' ∉ comment →
        (tokensOf (String.ofList (documentOf cuts (withComment comment d.rest))) = .ok tokens ↔
          (∀ cut ∈ cuts, ¬ cut.lexeme.IsOpenKey) ∨ List.IsChain Escapes ('/' :: comment)) := by
  obtain ⟨rfl, herror⟩ := run_of_tokensOf h
  obtain ⟨cuts, hcuts⟩ := Cursor.exists_readsTo hplace
  refine ⟨cuts, hcuts, hcuts.rest_eq, fun comment hline => ?_⟩
  have hcontext : (Cursor.start (String.ofList (documentOf cuts (withComment comment d.rest)))).context =
      (Cursor.start source).context := rfl
  rw [← hcuts.run_withComment_iff hmode hline herror hcontext String.toList_ofList]
  constructor
  · intro hnew
    obtain ⟨htokens, herror'⟩ := run_of_tokensOf hnew
    exact ⟨herror', htokens⟩
  · rintro ⟨herror', htokens⟩
    exact tokensOf_of_run htokens herror'

/-- The quote in front of the key is not closed. A quote in the comment is taken for the one that closes it if
it has no backslash, and one that has it is not. -/
theorem comment_with_a_backslash_closes_no_key :
    let tokens := [.symbol .braceOpen, .segment "'a", .symbol .equals, .integer 1, .symbol .braceClose]
    let d : Cursor := ⟨⟨.object, [.topLevel]⟩, " = 1 \x7d".toList, 4⟩
    tokensOf "\x7b 'a = 1 \x7d" = .ok tokens ∧
      (.segment "'a", d) ∈ (Cursor.start "\x7b 'a = 1 \x7d").run.steps ∧ d.mode ≠ .string ∧
      tokensOf "\x7b 'a // it\\'s\n = 1 \x7d" = .ok tokens := by
  intro tokens d
  have htokens : tokensOf "\x7b 'a = 1 \x7d" = .ok tokens := by
    decide +kernel
  have hplace : (.segment "'a", d) ∈ (Cursor.start "\x7b 'a = 1 \x7d").run.steps := by
    decide +kernel
  have hmode : d.mode ≠ .string := by
    decide
  obtain ⟨cuts, -, hsource, hall⟩ :=
    comments_are_harmless_behind_closed_keys htokens (Or.inr ⟨_, hplace⟩) hmode
  have hbefore : documentOf cuts [] = "\x7b 'a".toList := by
    rw [← documentOf_nil_append] at hsource
    have hsplit : "\x7b 'a".toList ++ d.rest = documentOf cuts [] ++ d.rest := hsource
    exact (List.append_cancel_right hsplit).symm
  have hnew := (hall " it\\'s".toList (by decide)).2 (Or.inr (by simp [Escapes]))
  rw [← documentOf_nil_append, hbefore] at hnew
  exact ⟨htokens, hplace, hmode, hnew⟩

/-- A document that does not keep its tokens: the quote in the comment closes the key, and the start of the
comment becomes a part of it. -/
theorem comment_closes_a_key :
    let d : Cursor := ⟨⟨.object, [.topLevel]⟩, " = 1 \x7d".toList, 4⟩
    tokensOf "\x7b 'a = 1 \x7d" =
        .ok [.symbol .braceOpen, .segment "'a", .symbol .equals, .integer 1, .symbol .braceClose] ∧
      (.segment "'a", d) ∈ (Cursor.start "\x7b 'a = 1 \x7d").run.steps ∧ d.mode ≠ .string ∧
      "\x7b 'a = 1 \x7d".toList = "\x7b 'a".toList ++ d.rest ∧
      "\x7b 'a //'\n = 1 \x7d".toList = "\x7b 'a".toList ++ withComment ['\''] d.rest ∧
      tokensOf "\x7b 'a //'\n = 1 \x7d" =
        .ok [.symbol .braceOpen, .segment "a //", .symbol .equals, .integer 1, .symbol .braceClose] ∧
      tokensOf "\x7b 'a //'\n = 1 \x7d" ≠ tokensOf "\x7b 'a = 1 \x7d" := by
  decide +kernel

end ConfigLang

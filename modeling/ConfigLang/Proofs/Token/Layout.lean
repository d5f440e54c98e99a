import ConfigLang.Proofs.Token.Cuts
import ConfigLang.Proofs.Token.Endings
import Mathlib.Data.List.Chain

/-!
# Layout

Which spaces and comments stand between the tokens of a document makes no difference, as long as there are
spaces at all: with any other spaces in their place the document has the same tokens. String literals keep
their text.

* `IsNewGap`, `Relaid` - spaces in the place of the gaps between the same lexemes.
* `Cursor.CutBy.cutsTo_eq` - a text can be cut in one way only, so its gaps are determined.
* `Cursor.RelaysTo` - the text in front of a cursor with new gaps, and what the run reads of the old one.
* `Cursor.RelaysTo.isChain` - new gaps close no quoted key that was not closed before.
* `Cursor.RelaysTo.run` - the run reads the same tokens.
* `layout_does_not_matter` - the result.
-/

namespace ConfigLang

open Lexeme

/-! ### New gaps -/

/-- What may stand in the place of a gap: any spaces, at least one. In a string literal there is no gap, and
nothing takes its place. -/
def IsNewGap (mode : Mode) (old new : List Char) : Prop :=
  if mode = .string then new = old else new ≠ [] ∧ ∀ c ∈ new, isSpace c = true

/-- The same lexemes with new gaps. The modes are those in which the gaps are read, the one behind all tokens
included. -/
inductive Relaid : List Mode → List Cut → List Char → List Cut → List Char → Prop
  | last {mode : Mode} {old new : List Char} (hnew : IsNewGap mode old new) : Relaid [mode] [] old [] new
  | cut {mode : Mode} {modes : List Mode} {old new : List Char} {l : Lexeme} {cuts cuts' : List Cut}
    {last last' : List Char} (hnew : IsNewGap mode old new) (hbehind : Relaid modes cuts last cuts' last') :
    Relaid (mode :: modes) (⟨old, l⟩ :: cuts) last (⟨new, l⟩ :: cuts') last'

theorem IsNewGap.exists_cons {mode : Mode} {old new : List Char} (h : IsNewGap mode old new)
    (hmode : mode ≠ .string) : ∃ c rest, new = c :: rest ∧ isSpace c = true := by
  obtain ⟨hne, hspace⟩ := (if_neg hmode).mp h
  obtain ⟨c, rest, rfl⟩ := List.exists_cons_of_ne_nil hne
  exact ⟨c, rest, rfl, hspace c List.mem_cons_self⟩

/-! ### One way to cut -/

namespace Cursor

variable {c d : Cursor} {t : Token} {steps : List (Token × Cursor)} {cuts cuts' : List Cut}
  {last last' : List Char}

/-- What is cut off between a cursor and the place behind the next token. -/
def cutTo (c : Cursor) (t : Token) (d : Cursor) : Cut :=
  let run := if c.mode = .string then [] else gap false c.rest
  let text := c.rest.take (c.rest.length - d.rest.length)
  ⟨run, ⟨t, text.drop run.length⟩⟩

/-- What is cut off at the given places, and what is left. -/
def cutsTo : Cursor → List (Token × Cursor) → List Cut × List Char
  | c, [] => ([], c.rest)
  | c, (t, d) :: steps => (c.cutTo t d :: (d.cutsTo steps).1, (d.cutsTo steps).2)

theorem cutTo_eq {cut : Cut} (h : cut.Between c d) : c.cutTo cut.lexeme.token d = cut := by
  obtain ⟨run, token, spelling⟩ := cut
  have hrest : c.rest = run ++ spelling ++ d.rest := h.rest
  have hrun : (if c.mode = .string then [] else gap false c.rest) = run := by
    by_cases hmode : c.mode = .string
    · rw [if_pos hmode]
      exact ((if_pos hmode).mp h.gap).symm
    · have hgap : IsLongestGap run (spelling ++ d.rest) := (if_neg hmode).mp h.gap
      rw [if_neg hmode, hrest, List.append_assoc]
      exact (hgap.eq (isLongestGap_gap _) (gap_append_drop _).symm).symm
  have htext : c.rest.take (c.rest.length - d.rest.length) = run ++ spelling := by
    rw [hrest, List.length_append, Nat.add_sub_cancel, List.take_left]
  simp only [cutTo, hrun, htext, List.drop_left]

/-- A text is cut in one way only. -/
theorem CutBy.cutsTo_eq (h : c.CutBy steps cuts last) : c.cutsTo steps = (cuts, last) := by
  induction h with
  | last => rfl
  | cut hcut _ ih => rw [cutsTo, ih, cutTo_eq hcut]

/-- What is cut off for a token is what the mode has read. -/
theorem read_of_between {cut : Cut} (hcut : cut.Between c d)
    (hnext : c.next = (.ok (some cut.lexeme.token), d)) :
    ∃ transition, c.mode.read (cut.lexeme.spelling ++ d.rest) = some (cut.lexeme, transition) ∧
      d.context = c.context.apply transition := by
  obtain ⟨other, transition, htoken, hother, hread, hcontext⟩ := exists_cut_of_next hnext
  obtain rfl : cut = other := by
    rw [← cutTo_eq hcut, ← cutTo_eq hother, htoken]
  exact ⟨transition, hread, hcontext⟩

end Cursor

/-! ### Contexts -/

namespace Context

variable {c : Context} {transition : Transition}

/-- No construct is pushed on a string literal, so that none is around another construct. -/
theorem not_mem_apply_below (hbelow : .string ∉ c.below)
    (hstring : c.current = .string → transition = .stay ∨ transition = .pop) :
    .string ∉ (c.apply transition).below := by
  cases transition with
  | stay => exact hbelow
  | push mode =>
    intro hmem
    rcases List.mem_cons.1 hmem with heq | hmem
    · rcases hstring heq.symm with h | h <;> cases h
    · exact hbelow hmem
  | pop =>
    obtain ⟨current, _ | ⟨outer, below⟩⟩ := c
    · exact hbelow
    · exact fun hmem => hbelow (List.mem_cons_of_mem outer hmem)
  | replace mode => exact hbelow

theorem of_apply_eq_string (hbelow : .string ∉ c.below) (h : (c.apply transition).current = .string) :
    c.current = .string ∨ transition = .push .string ∨ transition = .replace .string := by
  cases transition with
  | stay => exact Or.inl h
  | push mode => exact Or.inr (Or.inl (congrArg Transition.push h))
  | pop =>
    obtain ⟨current, _ | ⟨outer, below⟩⟩ := c
    · exact Or.inl h
    · exact absurd (h ▸ List.mem_cons_self) hbelow
  | replace mode => exact Or.inr (Or.inr (congrArg Transition.replace h))

theorem of_apply_ne_string (hstring : c.current = .string → transition = .stay ∨ transition = .pop)
    (h : (c.apply transition).current ≠ .string) : c.current ≠ .string ∨ transition = .pop := by
  by_cases hcurrent : c.current = .string
  · rcases hstring hcurrent with rfl | rfl
    · exact absurd hcurrent h
    · exact Or.inr rfl
  · exact Or.inl hcurrent

end Context

theorem Mode.transition_of_string {mode : Mode} {text : List Char} {l : Lexeme} {transition : Transition}
    (h : mode.read text = some (l, transition)) (hmode : mode = .string) :
    transition = .stay ∨ transition = .pop := by
  obtain ⟨rule, hrule, -, rfl, -⟩ := exists_rule_of_read h
  have hrules : ∀ rule ∈ Mode.string.rules, rule.transition = .stay ∨ rule.transition = .pop := by
    decide
  exact hrules rule (hmode ▸ hrule)

/-! ### The text with new gaps -/

/-- The text in front of a cursor is read as the given tokens, and with new gaps it becomes another text. -/
inductive Cursor.RelaysTo : Cursor → List Token → List Char → Prop
  | last {c : Cursor} {new : List Char} (hgap : IsGapIn c.mode c.rest []) (hnew : IsNewGap c.mode c.rest new) :
    RelaysTo c [] new
  | cut {c d : Cursor} {gap new : List Char} {l : Lexeme} {transition : Transition} {tokens : List Token}
    {text : List Char} (hrest : c.rest = gap ++ (l.spelling ++ d.rest))
    (hgap : IsGapIn c.mode gap (l.spelling ++ d.rest))
    (hread : c.mode.read (l.spelling ++ d.rest) = some (l, transition))
    (hcontext : d.context = c.context.apply transition) (hnew : IsNewGap c.mode gap new)
    (hbehind : RelaysTo d tokens text) : RelaysTo c (l.token :: tokens) (new ++ (l.spelling ++ text))

namespace Cursor

variable {c d : Cursor} {l : Lexeme} {transition : Transition} {cuts cuts' : List Cut}
  {tokens : List Token} {last last' text : List Char}

/-- What a run reads becomes the document of the cuts with new gaps. -/
theorem relaysTo_of_cutBy (hcuts : c.CutBy c.run.steps cuts last)
    (hrelaid : Relaid (c.mode :: c.run.steps.map (·.2.mode)) cuts last cuts' last') :
    c.RelaysTo c.run.tokens (documentOf cuts' last') := by
  induction c using Cursor.run.induct generalizing cuts cuts' with
  | case1 c t d hnext _ ih =>
    rw [run_of_some hnext] at hcuts hrelaid ⊢
    cases hcuts with
    | cut hcut hcuts =>
      cases hrelaid with
      | @cut _ _ old new l cuts cuts' _ _ hnew hbehind =>
        obtain ⟨transition, hread, hcontext⟩ := read_of_between hcut hnext
        have hrest : c.rest = old ++ (l.spelling ++ d.rest) := by
          rw [hcut.rest, Cut.text, List.append_assoc]
        rw [documentOf_cons]
        exact .cut hrest hcut.gap hread hcontext hnew (ih hcuts hbehind)
  | case2 c d hnext =>
    rw [run_of_none hnext] at hcuts hrelaid ⊢
    cases hcuts with
    | last hgap =>
      cases hrelaid with
      | last hnew => exact .last hgap hnew
  | case3 c e d hnext =>
    rw [run_of_error hnext] at hcuts hrelaid ⊢
    cases hcuts with
    | last hgap =>
      cases hrelaid with
      | last hnew => exact .last hgap hnew

/-! ### The first character -/

/-- In a string literal the text stays the same up to the next gap. -/
theorem RelaysTo.head?_eq (h : c.RelaysTo tokens text) (hmode : c.mode = .string) :
    text.head? = c.rest.head? := by
  cases h with
  | last hgap hnew => rw [(if_pos hmode).mp hnew]
  | cut hrest hgap hread hcontext hnew hbehind =>
    have hne := (Mode.ne_nil_and_isPrefix_of_read hread).1
    rw [(if_pos hmode).mp hnew, hrest, (if_pos hmode).mp hgap, List.nil_append, List.nil_append,
      List.head?_append_of_ne_nil _ hne, List.head?_append_of_ne_nil _ hne]

/-- Elsewhere it begins with a space. -/
theorem RelaysTo.exists_cons (h : c.RelaysTo tokens text) (hmode : c.mode ≠ .string) :
    ∃ first rest, text = first :: rest ∧ isSpace first = true := by
  cases h with
  | last hgap hnew => exact hnew.exists_cons hmode
  | cut hrest hgap hread hcontext hnew hbehind =>
    obtain ⟨first, rest, rfl, hfirst⟩ := hnew.exists_cons hmode
    exact ⟨first, _, rfl, hfirst⟩

/-- A first character that is no space is inside a string literal and was there before. -/
theorem RelaysTo.head?_of_not_isSpace (h : c.RelaysTo tokens text) {first : Char}
    (hfirst : text.head? = some first) (hspace : isSpace first = false) :
    c.mode = .string ∧ c.rest.head? = some first := by
  by_cases hmode : c.mode = .string
  · exact ⟨hmode, (h.head?_eq hmode).symm.trans hfirst⟩
  · obtain ⟨other, rest, rfl, hother⟩ := h.exists_cons hmode
    obtain rfl : other = first := Option.some.inj hfirst
    rw [hspace] at hother
    cases hother

/-! ### Quotes -/

theorem isChain_of_spaces {spaces : List Char} (h : ∀ c ∈ spaces, isSpace c = true) :
    List.IsChain Escapes spaces := by
  induction spaces with
  | nil => exact .nil
  | cons first spaces ih =>
    refine .cons (ih fun d hd => h d (List.mem_cons_of_mem first hd)) fun d hd hquote => ?_
    have hspace := h d (List.mem_cons_of_mem first (List.mem_of_head? hd))
    rw [hquote] at hspace
    cases hspace

/-- A quote behind a token outside string literals has no backslash in front. -/
theorem not_quote_behind (hread : c.mode.read (l.spelling ++ d.rest) = some (l, transition))
    (hcontext : d.context = c.context.apply transition)
    (hchain : List.IsChain Escapes (l.spelling ++ d.rest)) (hmode : d.mode ≠ .string) :
    d.rest.head? ≠ some '\'' := by
  intro hquote
  have hne := (Mode.ne_nil_and_isPrefix_of_read hread).1
  obtain ⟨last, hlast⟩ := Option.ne_none_iff_exists'.1 (mt List.getLast?_eq_none_iff.1 hne)
  have hslash : last = '\\' := (List.isChain_append.1 hchain).2.2 last hlast '\'' hquote rfl
  rw [mode, hcontext] at hmode
  have hends := Context.of_apply_ne_string (Mode.transition_of_string hread) hmode
  exact Mode.not_quote_behind_backslash hread hends (hslash ▸ hlast) hquote

/-- A token outside string literals begins with a quote only if there is no gap in front of it: a gap ends in no
backslash. -/
theorem not_quote_behind_gap {run behind : List Char} (hgap : IsGap run behind)
    (hchain : List.IsChain Escapes (run ++ behind)) (hhead : (run ++ behind).head? ≠ some '\'') :
    behind.head? ≠ some '\'' := by
  intro hquote
  obtain ⟨rest, rfl⟩ := List.head?_eq_some_iff.1 hquote
  cases hlast : run.getLast? with
  | none =>
    rw [List.getLast?_eq_none_iff.1 hlast] at hhead
    exact hhead rfl
  | some last =>
    have hslash : last = '\\' := (List.isChain_append.1 hchain).2.2 last hlast '\'' rfl rfl
    exact hgap.getLast?_ne (by decide) (hslash ▸ hlast)

/-- Behind a token a relaid text closes a quoted key no more than the text before. -/
theorem RelaysTo.isChain_append (h : d.RelaysTo tokens text)
    (hchain : List.IsChain Escapes (l.spelling ++ d.rest)) (htext : List.IsChain Escapes text) :
    List.IsChain Escapes (l.spelling ++ text) := by
  obtain ⟨hspelling, -, hjoint⟩ := List.isChain_append.1 hchain
  refine List.isChain_append.2 ⟨hspelling, htext, fun last hlast first hfirst hquote => ?_⟩
  obtain ⟨-, hhead⟩ := h.head?_of_not_isSpace hfirst (by rw [hquote]; rfl)
  exact hjoint last hlast first hhead hquote

/-- New gaps close no quoted key that was not closed before. -/
theorem RelaysTo.isChain (h : c.RelaysTo tokens text) (hchain : List.IsChain Escapes c.rest)
    (hhead : c.mode ≠ .string → c.rest.head? ≠ some '\'') : List.IsChain Escapes text := by
  induction h with
  | @last c new hgap hnew =>
    by_cases hmode : c.mode = .string
    · rwa [(if_pos hmode).mp hnew]
    · exact isChain_of_spaces ((if_neg hmode).mp hnew).2
  | @cut c d run new l transition tokens text hrest hgap hread hcontext hnew hbehind ih =>
    rw [hrest] at hchain hhead
    have hbefore := (List.isChain_append.1 hchain).2.1
    have hrestChain := (List.isChain_append.1 hbefore).2.1
    have htext := hbehind.isChain_append hbefore
      (ih hrestChain (not_quote_behind hread hcontext hbefore))
    by_cases hmode : c.mode = .string
    · rwa [(if_pos hmode).mp hnew, (if_pos hmode).mp hgap]
    · -- The new gap ends in no backslash, so the token behind it must not begin with a quote.
      have hspaces := ((if_neg hmode).mp hnew).2
      refine List.isChain_append.2 ⟨isChain_of_spaces hspaces, htext, fun last _ first hfirst hquote => ?_⟩
      have hne := (Mode.ne_nil_and_isPrefix_of_read hread).1
      have hfree := not_quote_behind_gap ((if_neg hmode).mp hgap).isGap hchain (hhead hmode)
      rw [Option.mem_def, hquote, List.head?_append_of_ne_nil _ hne] at hfirst
      rw [List.head?_append_of_ne_nil _ hne] at hfree
      exact absurd hfirst hfree

/-! ### Reading with new gaps -/

/-- A token is read in front of the text with new gaps as it was in front of the old one. -/
theorem RelaysTo.read (h : d.RelaysTo tokens text)
    (hread : c.mode.read (l.spelling ++ d.rest) = some (l, transition))
    (hcontext : d.context = c.context.apply transition) (hbelow : .string ∉ c.context.below) :
    c.mode.read (l.spelling ++ text) = some (l, transition) := by
  have hmode : d.mode = (c.context.apply transition).current := congrArg Context.current hcontext
  by_cases hinside : d.mode = .string
  · have hstring := Context.of_apply_eq_string hbelow (hmode.symm.trans hinside)
    exact Mode.read_in_string hread hstring fun _ => h.head?_eq hinside
  by_cases hstring : c.mode = .string
  · have hends := Context.of_apply_ne_string (Mode.transition_of_string hread) (hmode ▸ hinside)
    have hpop := hends.resolve_left (absurd hstring)
    exact Mode.read_in_string hread (Or.inl hstring) fun hne => absurd hpop hne
  · obtain ⟨first, rest, rfl, hfirst⟩ := h.exists_cons hinside
    refine Mode.read_before_space hread hstring hfirst fun hnone => ?_
    have hne := (Mode.ne_nil_and_isPrefix_of_read hread).1
    rw [quotedSegment?_eq_none_iff, List.head?_append_of_ne_nil _ hne] at hnone ⊢
    intro hquote
    -- A bare key that begins with a quote: nothing in the rest of the document closes it.
    have hchain := hnone hquote
    refine h.isChain_append hchain (h.isChain (List.isChain_append.1 hchain).2.1 fun hmode => ?_)
    exact not_quote_behind hread hcontext hchain hmode

/-- New gaps are skipped like the old ones. -/
theorem skipGap_rest_of_newGap {run new behind : List Char} {c' : Cursor} (hgap : IsGapIn c.mode run behind)
    (hnew : IsNewGap c.mode run new) (hmode : c'.mode = c.mode) (hrest : c'.rest = new ++ text)
    (htext : c.mode ≠ .string → gap false text = []) : c'.skipGap.rest = text := by
  by_cases hstring : c.mode = .string
  · rw [skipGap_of_string (hmode.trans hstring), hrest, (if_pos hstring).mp hnew, (if_pos hstring).mp hgap,
      List.nil_append]
  · have hspaces := ((if_neg hstring).mp hnew).2
    exact skipGap_rest_of_blank (hmode ▸ hstring) hspaces (htext hstring) hrest

/-- With new gaps the same tokens are read. -/
theorem RelaysTo.run (h : c.RelaysTo tokens text) (hbelow : .string ∉ c.context.below) {c' : Cursor}
    (hcontext : c'.context = c.context) (hrest : c'.rest = text) :
    c'.run.error = none ∧ c'.run.tokens = tokens := by
  -- The places in the new text have other offsets. What they share with the old ones are the modes.
  induction h generalizing c' with
  | @last c new hgap hnew =>
    have hend : c'.skipGap.rest = [] :=
      skipGap_rest_of_newGap hgap hnew (congrArg Context.current hcontext) (by rw [hrest, List.append_nil])
        fun _ => rfl
    rw [run_of_none (next_eq_none hend)]
    exact ⟨rfl, rfl⟩
  | @cut c d run new l transition tokens text _ hgap hread hcontext' hnew hbehind ih =>
    have hmode : c'.mode = c.mode := congrArg Context.current hcontext
    have hne := (Mode.ne_nil_and_isPrefix_of_read hread).1
    have hslash : text.head? = some '/' → d.rest.head? = some '/' :=
      fun hfirst => (hbehind.head?_of_not_isSpace hfirst rfl).2
    have hskip : c'.skipGap.rest = l.spelling ++ text :=
      skipGap_rest_of_newGap hgap hnew hmode hrest fun hstring =>
        gap_append_eq_nil hne ((if_neg hstring).mp hgap : IsLongestGap _ _).gap_eq_nil hslash
    have hread' := hbehind.read hread hcontext' hbelow
    rw [← hmode] at hread'
    obtain ⟨d', hnext, hd', hrest'⟩ := next_eq_some hne hskip hread'
    have hbelow' : .string ∉ d.context.below := by
      rw [hcontext']
      exact Context.not_mem_apply_below hbelow (Mode.transition_of_string hread)
    obtain ⟨herror, htokens⟩ := ih hbelow' (by rw [hd', hcontext, hcontext']) hrest'
    rw [run_of_some hnext]
    exact ⟨herror, congrArg (List.cons l.token) htokens⟩

end Cursor

/-! ### Whole documents -/

/-- A document that has tokens is made of their spellings and of gaps. With any spaces in the place of each
gap that is not inside a string literal it has the same tokens: the comments may be left out, and the lines may
be broken elsewhere. -/
theorem layout_does_not_matter {source : String} {tokens : List Token} (h : tokensOf source = .ok tokens) :
    (∃ cuts last, (Cursor.start source).CutBy (Cursor.start source).run.steps cuts last) ∧
      ∀ cuts last cuts' last', (Cursor.start source).CutBy (Cursor.start source).run.steps cuts last →
        Relaid (.topLevel :: (Cursor.start source).run.steps.map (·.2.mode)) cuts last cuts' last' →
          tokensOf (String.ofList (documentOf cuts' last')) = .ok tokens := by
  obtain ⟨rfl, herror⟩ := run_of_tokensOf h
  refine ⟨Cursor.exists_cutBy_of_run herror, fun cuts last cuts' last' hcuts hrelaid => ?_⟩
  have hrelays := Cursor.relaysTo_of_cutBy hcuts hrelaid
  have hcontext : (Cursor.start (String.ofList (documentOf cuts' last'))).context =
      (Cursor.start source).context := rfl
  obtain ⟨herror', htokens⟩ := hrelays.run List.not_mem_nil hcontext String.toList_ofList
  exact tokensOf_of_run htokens herror'

/-- The key begins with a quote that is never closed, one comment stands behind the equals sign and one at the
end, and there is no space in front of the key. -/
theorem comments_around_a_string_are_left_out :
    tokensOf "\x7b'a=// c\n\"x  y\"// d" =
        .ok [.symbol .braceOpen, .segment "'a", .symbol .equals, .symbol .doubleQuote,
          .characters "x  y", .symbol .doubleQuote] ∧
      tokensOf "\n\x7b\t'a = \"x  y\"\r\n" =
        .ok [.symbol .braceOpen, .segment "'a", .symbol .equals, .symbol .doubleQuote,
          .characters "x  y", .symbol .doubleQuote] := by
  have htokens : tokensOf "\x7b'a=// c\n\"x  y\"// d" =
      .ok [.symbol .braceOpen, .segment "'a", .symbol .equals, .symbol .doubleQuote,
        .characters "x  y", .symbol .doubleQuote] := by
    decide +kernel
  have hcuts : (Cursor.start "\x7b'a=// c\n\"x  y\"// d").cutsTo
      (Cursor.start "\x7b'a=// c\n\"x  y\"// d").run.steps =
        ([⟨[], .symbol .braceOpen, ['\x7b']⟩, ⟨[], .segment "'a", ['\'', 'a']⟩,
          ⟨[], .symbol .equals, ['=']⟩, ⟨"// c\n".toList, .symbol .doubleQuote, ['"']⟩,
          ⟨[], .characters "x  y", "x  y".toList⟩, ⟨[], .symbol .doubleQuote, ['"']⟩], "// d".toList) := by
    decide +kernel
  have hmodes : (Cursor.start "\x7b'a=// c\n\"x  y\"// d").run.steps.map (·.2.mode) =
      [.object, .object, .value, .string, .string, .object] := by
    decide +kernel
  obtain ⟨⟨cuts, last, hcutBy⟩, hall⟩ := layout_does_not_matter htokens
  obtain ⟨rfl, rfl⟩ := Prod.mk.inj (hcutBy.cutsTo_eq.symm.trans hcuts)
  have hnew := hall _ _ [⟨['\n'], .symbol .braceOpen, ['\x7b']⟩, ⟨['\t'], .segment "'a", ['\'', 'a']⟩,
    ⟨[' '], .symbol .equals, ['=']⟩, ⟨[' '], .symbol .doubleQuote, ['"']⟩,
    ⟨[], .characters "x  y", "x  y".toList⟩, ⟨[], .symbol .doubleQuote, ['"']⟩] ['\r', '\n'] hcutBy
  rw [hmodes] at hnew
  refine ⟨htokens, hnew (.cut ?_ (.cut ?_ (.cut ?_ (.cut ?_ (.cut ?_ (.cut ?_ (.last ?_)))))))⟩
  all_goals simp [IsNewGap, isSpace]

end ConfigLang

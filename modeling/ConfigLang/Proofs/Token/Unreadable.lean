import ConfigLang.Proofs.Token.Cuts
import ConfigLang.Proofs.Token.Truncation

/-!
# Where reading stops

A document is read up to the end or to the first place where no rule applies. In the second case the error
marks this place: the text in front of it is a document of its own, with the same tokens and the same modes
at its end, and no token begins behind it.

* `Cursor.upTo` - a cursor in a document that ends earlier.
* `Cursor.next_upTo` - the next token is read the same way if the document ends somewhere behind it.
* `Cursor.hexInteger?_of_next` - no place behind a token is inside a hexadecimal number.
* `Cursor.run_upTo` - all tokens up to the place.
* `unreadable_marks_where_reading_stops` - the result.
-/

namespace ConfigLang

open Lexeme

/-! ### Digits behind an x -/

theorem length_takeWhile_le {p q : Char → Bool} (h : ∀ c, p c = true → q c = true) (text : List Char) :
    (text.takeWhile p).length ≤ (text.takeWhile q).length := by
  induction text with
  | nil => exact Nat.le_refl _
  | cons c text ih =>
    by_cases hc : p c = true
    · rw [List.takeWhile_cons_of_pos hc, List.takeWhile_cons_of_pos (h c hc)]
      exact Nat.succ_le_succ ih
    · rw [List.takeWhile_cons_of_neg hc]
      exact Nat.zero_le _

theorem isBareChar_of_isHexDigit {c : Char} (h : isHexDigit c = true) : isBareChar c = true := by
  by_contra hc
  have hother := Bool.eq_false_iff.2 hc
  simp only [isBareChar, isSpace, Bool.and_eq_false_iff, Bool.not_eq_false', Bool.or_eq_true, beq_iff_eq,
    bne_eq_false_iff_eq] at hother
  rcases hother with ((((rfl | rfl) | rfl) | rfl) | rfl) | rfl <;> exact absurd h (by decide)

theorem isTextChar_of_isHexDigit {c : Char} (h : isHexDigit c = true) : isTextChar c = true := by
  by_contra hc
  have hother := Bool.eq_false_iff.2 hc
  simp only [isTextChar, Bool.and_eq_false_iff, bne_eq_false_iff_eq] at hother
  rcases hother with (rfl | rfl) | rfl <;> exact absurd h (by decide)

theorem length_takeWhile_lt_of_run? {p : Char → Bool} {token : String → Token} {text : List Char}
    {l : Lexeme} (hp : ∀ c, isHexDigit c = true → p c = true) (hx : p 'x' = true)
    (h : run? p token ('x' :: text) = some l) :
    (text.takeWhile isHexDigit).length < l.spelling.length := by
  rw [run?, List.takeWhile_cons_of_pos hx, if_neg (List.cons_ne_nil _ _)] at h
  obtain rfl := Option.some.inj h
  exact Nat.succ_le_succ (length_takeWhile_le hp text)

/-- A token that begins with an x goes on at least as long as there are hexadecimal digits. -/
theorem Reader.length_takeWhile_lt {r : Reader} {text : List Char} {l : Lexeme}
    (h : r.read ('x' :: text) = some l) : (text.takeWhile isHexDigit).length < l.spelling.length := by
  have hbegins := begins_of_read h
  cases r with
  | symbol s => cases s <;> exact absurd hbegins (by decide)
  | bareSegment =>
    rw [read, bareSegment?_eq_run?] at h
    exact length_takeWhile_lt_of_run? (fun _ => isBareChar_of_isHexDigit) rfl h
  | characters =>
    rw [read, characters?_eq_run?] at h
    exact length_takeWhile_lt_of_run? (fun _ => isTextChar_of_isHexDigit) rfl h
  | _ => exact absurd hbegins (by decide)

namespace Cursor

variable {c d : Cursor} {t : Token} {e : Unreadable} {text kept cutOff : List Char}

/-! ### Where a run stops -/

/-- Where a run stops with an error, the same error comes again. -/
theorem last_of_run_error (h : c.run.error = some e) :
    c.run.last.rest ≠ [] ∧ e = c.run.last.unreadable ∧ c.run.last.next = (.error e, c.run.last) := by
  induction c using Cursor.run.induct with
  | case1 c t d hnext _ ih =>
    rw [run_of_some hnext] at h ⊢
    exact ih h
  | case2 c d hnext =>
    rw [run_of_none hnext] at h
    cases h
  | case3 c e' d hnext =>
    rw [run_of_error hnext] at h ⊢
    obtain rfl := Option.some.inj h
    exact (unreadable_of_next_eq_error hnext).2

/-- The text from a place on up to where the run stops. -/
theorem exists_text_before_last (c : Cursor) :
    ∃ text, c.rest = text ++ c.run.last.rest ∧ c.run.last.offset = c.offset + byteLength text := by
  induction c using Cursor.run.induct with
  | case1 c t d hnext _ ih =>
    obtain ⟨text, hrest, hoffset⟩ := ih
    obtain ⟨cut, -, -, hcut, -⟩ := exists_cut_of_next hnext
    rw [run_of_some hnext]
    refine ⟨cut.text ++ text, ?_, ?_⟩
    · rw [List.append_assoc, hcut.rest, hrest]
      rfl
    · rw [byteLength_append, ← Nat.add_assoc, ← hcut.offset]
      exact hoffset
  | case2 c d hnext =>
    obtain ⟨run, hrest, hoffset, -⟩ := c.exists_gap
    rw [run_of_none hnext, (rest_of_next_eq_none hnext).2]
    exact ⟨run, hrest, hoffset⟩
  | case3 c e d hnext =>
    obtain ⟨run, hrest, hoffset, -⟩ := c.exists_gap
    rw [run_of_error hnext, (unreadable_of_next_eq_error hnext).1]
    exact ⟨run, hrest, hoffset⟩

theorem skipGap_of_rest_eq_x (h : c.rest = 'x' :: text) : c.skipGap = c := by
  have hgap : gap false c.rest = [] := by
    refine gap_eq_nil ?_
    rintro first hfirst
    rw [h] at hfirst
    obtain rfl := Option.some.inj hfirst
    decide
  exact skipGap_of_gap_eq_nil hgap

/-- The hexadecimal digits behind an x are read together with it, so they stand in front of all that the next
token leaves. -/
theorem length_takeWhile_isHexDigit_le (hnext : c.next = (.ok (some t), d))
    (hrest : c.rest = 'x' :: (kept ++ cutOff)) (hleft : cutOff.length ≤ d.rest.length) :
    ((kept ++ cutOff).takeWhile isHexDigit).length ≤ kept.length := by
  have hskip := skipGap_of_rest_eq_x hrest
  obtain ⟨l, transition, hread, -, hd⟩ := read_of_next_eq_some hnext
  rw [hskip, hrest] at hread
  obtain ⟨rule, -, hrule, -⟩ := Mode.exists_rule_of_read hread
  have hlong := Reader.length_takeWhile_lt hrule
  have hfits := (Mode.ne_nil_and_isPrefix_of_read hread).2.length_le
  have hbehind : d.rest = c.rest.drop l.spelling.length := by
    rw [hd, hskip]
    rfl
  rw [hbehind, hrest] at hleft
  simp only [List.length_cons, List.length_append, List.length_drop] at hfits hleft
  omega

/-- A run of characters that stops in the first part of a text is a run in that part. -/
theorem takeWhile_append_of_length_le {p : Char → Bool}
    (hle : ((kept ++ cutOff).takeWhile p).length ≤ kept.length) :
    (kept ++ cutOff).takeWhile p = kept.takeWhile p := by
  rw [List.takeWhile_append] at hle ⊢
  split
  next hall =>
    rw [if_pos hall, List.length_append] at hle
    have hnone : cutOff.takeWhile p = [] := List.eq_nil_of_length_eq_zero (by omega)
    rw [hnone, List.append_nil, (List.takeWhile_prefix _).eq_of_length hall]
  next => rfl

/-- Whether a zero begins a hexadecimal number is decided in front of all that the next token leaves. -/
theorem hexInteger?_of_next (hrest : c.rest = kept ++ cutOff)
    (hstep : ∀ tail, kept = 'x' :: tail →
      ∃ t d, c.next = (.ok (some t), d) ∧ cutOff.length ≤ d.rest.length)
    (hnone : hexInteger? ('0' :: c.rest) = none) : hexInteger? ('0' :: kept) = none := by
  match kept with
  | [] => rfl
  | first :: kept =>
    by_cases hx : first = 'x'
    · subst hx
      obtain ⟨t, d, hnext, hleft⟩ := hstep kept rfl
      have hdigits := takeWhile_append_of_length_le (length_takeWhile_isHexDigit_le hnext hrest hleft)
      rw [hrest, List.cons_append, hexInteger?, hdigits] at hnone
      exact hnone
    · rw [hexInteger?]
      intro rest heq
      exact hx (List.cons.inj (List.cons.inj heq).2).1

/-- So it is decided in front of the place where reading stops. -/
theorem hexInteger?_of_run_error (herror : c.run.error = some e)
    (hrest : c.rest = kept ++ c.run.last.rest) (hnone : hexInteger? ('0' :: c.rest) = none) :
    hexInteger? ('0' :: kept) = none := by
  refine hexInteger?_of_next hrest (fun tail hkept => ?_) hnone
  cases hnext : c.next with
  | mk outcome d =>
    rcases outcome with e' | _ | t
    · -- The place would be in front of the x.
      rw [hkept] at hrest
      rw [run_of_error hnext, (unreadable_of_next_eq_error hnext).1, skipGap_of_rest_eq_x hrest] at hrest
      have hlength := congrArg List.length hrest
      simp only [List.length_append, List.length_cons] at hlength
      omega
    · rw [run_of_none hnext] at herror
      cases herror
    · obtain ⟨text, htext, -⟩ := d.exists_text_before_last
      refine ⟨t, d, rfl, ?_⟩
      rw [run_of_some hnext, htext, List.length_append]
      exact Nat.le_add_left _ _

/-! ### Documents that end earlier -/

/-- The same place in a document that goes on with the given text only. -/
def upTo (c : Cursor) (text : List Char) : Cursor := { c with rest := text }

theorem skipGap_upTo (h : c.skipGap.rest = kept ++ cutOff) :
    ∃ run, c.rest = run ++ (kept ++ cutOff) ∧ (c.upTo (run ++ kept)).skipGap = c.skipGap.upTo kept := by
  by_cases hmode : c.mode = .string
  · rw [skipGap_of_string hmode] at h ⊢
    exact ⟨[], h, skipGap_of_string hmode⟩
  · have hskip : c.skipGap = c.advance (gap false c.rest) := if_neg hmode
    have hrest : c.rest = gap false c.rest ++ (kept ++ cutOff) := by
      conv => lhs; rw [← gap_append_drop c.rest]
      rw [← h, hskip]
      rfl
    have hgap : gap false (gap false c.rest ++ kept) = gap false c.rest :=
      @gap_of_append false _ kept cutOff (congrArg (gap false) hrest.symm)
    have hskip' : (c.upTo (gap false c.rest ++ kept)).skipGap =
        (c.upTo (gap false c.rest ++ kept)).advance (gap false (gap false c.rest ++ kept)) :=
      if_neg hmode
    refine ⟨gap false c.rest, hrest, ?_⟩
    rw [hskip, hskip', hgap]
    simp only [upTo, advance, List.drop_left]

/-- The next token is read in the same way if the document ends somewhere behind it. -/
theorem next_upTo (h : c.next = (.ok (some t), d)) (hrest : d.rest = kept ++ cutOff)
    (hhex : hexInteger? ('0' :: d.rest) = none → hexInteger? ('0' :: kept) = none) :
    ∃ text, c.rest = text ++ cutOff ∧ (c.upTo text).next = (.ok (some t), d.upTo kept) := by
  obtain ⟨l, transition, hread, rfl, rfl⟩ := read_of_next_eq_some h
  obtain ⟨hne, hprefix⟩ := Mode.ne_nil_and_isPrefix_of_read hread
  have hbehind := rest_eq_spelling_append hprefix transition
  rw [hrest] at hbehind hhex
  rw [hbehind] at hread
  have hkept := Mode.read_of_append hread hhex
  rw [← List.append_assoc] at hbehind
  obtain ⟨run, hrun, hskip⟩ := skipGap_upTo hbehind
  refine ⟨run ++ (l.spelling ++ kept), by rw [hrun, List.append_assoc run], ?_⟩
  have hmode : (c.skipGap.upTo (l.spelling ++ kept)).mode = c.mode :=
    congrArg Context.current c.skipGap_context
  have hne' : (c.skipGap.upTo (l.spelling ++ kept)).rest ≠ [] :=
    fun hnil => hne (List.append_eq_nil_iff.1 hnil).1
  have hread' : (c.skipGap.upTo (l.spelling ++ kept)).mode.read
      (c.skipGap.upTo (l.spelling ++ kept)).rest = some (l, transition) := by
    rw [hmode]
    exact hkept
  rw [next]
  simp only [hskip, if_neg hne', hread']
  simp only [pass, advance, upTo, List.drop_left]

/-- Up to the place where reading stops, all tokens are read as they are in the whole document. -/
theorem run_upTo (herror : c.run.error = some e) (hrest : c.rest = text ++ c.run.last.rest) :
    (c.upTo text).run.error = none ∧ (c.upTo text).run.tokens = c.run.tokens ∧
      (c.upTo text).run.last = c.run.last.upTo [] := by
  induction c using Cursor.run.induct generalizing text with
  | case1 c t d hnext _ ih =>
    rw [run_of_some hnext] at herror hrest ⊢
    obtain ⟨kept, hkept, -⟩ := d.exists_text_before_last
    obtain ⟨hnone, htokens, hlast⟩ := ih herror hkept
    obtain ⟨text', htext, hnext'⟩ := next_upTo hnext hkept (hexInteger?_of_run_error herror hkept)
    obtain rfl : text = text' := List.append_cancel_right (hrest.symm.trans htext)
    rw [run_of_some hnext']
    exact ⟨hnone, congrArg (List.cons t) htokens, hlast⟩
  | case2 c d hnext =>
    rw [run_of_none hnext] at herror
    cases herror
  | case3 c e' d hnext =>
    obtain ⟨rfl, -⟩ := unreadable_of_next_eq_error hnext
    rw [run_of_error hnext] at hrest ⊢
    obtain ⟨run, hrun, hskip⟩ := @skipGap_upTo c [] c.skipGap.rest rfl
    obtain rfl : text = run := List.append_cancel_right (hrest.symm.trans hrun)
    rw [List.append_nil] at hskip
    have hend : (c.upTo text).skipGap.rest = [] := by
      rw [hskip]
      rfl
    rw [run_of_none (next_eq_none hend), hskip]
    exact ⟨rfl, rfl, rfl⟩

end Cursor

/-! ### Whole documents -/

/-- The error of a document that cannot be read marks the place where reading stops. There the text is not at
its end, and the error shows how it goes on. The text in front of the place is a document of its own, with the
tokens that were read up to there and with the same modes at its end. Reading on at the place gives the same
error again. -/
theorem unreadable_marks_where_reading_stops {source : String} {e : Unreadable}
    (h : tokensOf source = .error e) :
    ∃ kept rest : String, source = kept ++ rest ∧ rest ≠ "" ∧ e.offset = kept.utf8ByteSize ∧
      e.found = String.ofList (rest.toList.take 16) ∧ e.found ≠ "" ∧
      tokensOf kept = .ok (Cursor.start source).run.tokens ∧
      (Cursor.start kept).run.last.context = (Cursor.start source).run.last.context ∧
      (Cursor.start source).run.last.context.current = e.mode ∧
      (Cursor.start source).run.last.next = (.error e, (Cursor.start source).run.last) := by
  have herror := error_of_tokensOf h
  obtain ⟨hne, rfl, hagain⟩ := Cursor.last_of_run_error herror
  obtain ⟨text, hrest, hoffset⟩ := (Cursor.start source).exists_text_before_last
  obtain ⟨hnone, htokens, hlast⟩ := Cursor.run_upTo herror hrest
  have hstart : (Cursor.start source).upTo text = Cursor.start (String.ofList text) := by
    rw [Cursor.start, Cursor.start, Cursor.upTo, String.toList_ofList]
  rw [hstart] at hnone htokens hlast
  have hsource : source = String.ofList text ++ String.ofList (Cursor.start source).run.last.rest := by
    rw [← String.ofList_append, ← hrest, Cursor.start, String.ofList_toList]
  refine ⟨String.ofList text, String.ofList (Cursor.start source).run.last.rest, hsource, ?_, ?_, ?_, ?_,
    tokensOf_of_run htokens hnone, ?_, rfl, hagain⟩
  · simpa using hne
  · rw [utf8ByteSize_ofList]
    exact hoffset.trans (Nat.zero_add _)
  · rw [String.toList_ofList]
    rfl
  · simpa [Cursor.unreadable] using hne
  · rw [hlast]
    rfl

/-- A hexadecimal number that is out of range: its zero is read as a decimal number, and reading stops in front
of the x. The comment has a character of two bytes. -/
theorem number_out_of_range_stops_behind_its_zero :
    tokensOf "// \u00e9\n\x7b a = [0x10000000000000000] \x7d" =
        .error ⟨.array, 14, "x100000000000000"⟩ ∧
      ∃ kept rest : String, "// \u00e9\n\x7b a = [0x10000000000000000] \x7d" = kept ++ rest ∧
        kept.utf8ByteSize = 14 ∧ tokensOf kept =
          .ok (Cursor.start "// \u00e9\n\x7b a = [0x10000000000000000] \x7d").run.tokens := by
  have herror : tokensOf "// \u00e9\n\x7b a = [0x10000000000000000] \x7d" =
      .error ⟨.array, 14, "x100000000000000"⟩ := by
    decide +kernel
  obtain ⟨kept, rest, hsource, -, hoffset, -, -, htokens, -⟩ :=
    unreadable_marks_where_reading_stops herror
  exact ⟨herror, kept, rest, hsource, hoffset.symm, htokens⟩

end ConfigLang

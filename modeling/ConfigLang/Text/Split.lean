/-!
# Cutting a text at a separator

`splitAt sep text` are the pieces of a text between the occurrences of a separator character, so
that there is one piece more than there are separators.

* `splitAt_ne_nil` - there is always a piece.
* `intercalate_splitAt` - the pieces with the separator between them are the text.
* `splitAt_inj` - a text is known by its pieces.
* `mem_and_ne_of_mem_splitAt` - the pieces are made of the other characters of the text.
* `splitAt_intercalate` - pieces without the separator come back from the text that they make up.
-/

namespace ConfigLang.Text

/-- The pieces between the separators. -/
def splitAt (sep : Char) : List Char → List (List Char)
  | [] => [[]]
  | c :: rest =>
    if c = sep then [] :: splitAt sep rest
    else match splitAt sep rest with
      | [] => [[c]]
      | piece :: pieces => (c :: piece) :: pieces

theorem splitAt_ne_nil (sep : Char) (text : List Char) : splitAt sep text ≠ [] := by
  cases text with
  | nil => simp [splitAt]
  | cons c rest =>
    rw [splitAt]
    split
    · simp
    · split <;> simp

theorem intercalate_splitAt (sep : Char) (text : List Char) :
    List.intercalate [sep] (splitAt sep text) = text := by
  induction text with
  | nil => rfl
  | cons c rest ih =>
    obtain ⟨piece, pieces, h⟩ := List.exists_cons_of_ne_nil (splitAt_ne_nil sep rest)
    rw [splitAt]
    split
    next hc => rw [h] at ih ⊢; simp [List.intercalate, List.intersperse, ← ih, hc]
    next hc =>
      rw [h] at ih ⊢
      cases pieces with
      | nil => simpa [List.intercalate] using ih
      | cons p ps => simpa [List.intercalate] using ih

theorem splitAt_inj {sep : Char} {text other : List Char} :
    splitAt sep text = splitAt sep other ↔ text = other := by
  refine ⟨fun h => ?_, congrArg (splitAt sep)⟩
  rw [← intercalate_splitAt sep text, h, intercalate_splitAt]

theorem mem_and_ne_of_mem_splitAt {sep c : Char} {text piece : List Char} (h : piece ∈ splitAt sep text)
    (hc : c ∈ piece) : c ∈ text ∧ c ≠ sep := by
  induction text generalizing piece with
  | nil =>
    rw [List.mem_singleton.1 h] at hc
    exact absurd hc List.not_mem_nil
  | cons d rest ih =>
    obtain ⟨first, pieces, hsplit⟩ := List.exists_cons_of_ne_nil (splitAt_ne_nil sep rest)
    rw [splitAt, hsplit] at h
    rw [hsplit] at ih
    have hbehind : ∀ {other}, other ∈ first :: pieces → c ∈ other → c ∈ d :: rest ∧ c ≠ sep :=
      fun hother hc => (ih hother hc).imp_left (List.mem_cons_of_mem d)
    split at h
    · rcases List.mem_cons.1 h with rfl | h
      · exact absurd hc List.not_mem_nil
      · exact hbehind h hc
    next hd =>
      rcases List.mem_cons.1 h with rfl | h
      · rcases List.mem_cons.1 hc with rfl | hc
        · exact ⟨List.mem_cons_self, hd⟩
        · exact hbehind List.mem_cons_self hc
      · exact hbehind (List.mem_cons_of_mem first h) hc

theorem not_mem_of_mem_splitAt {sep : Char} {text piece : List Char} (h : piece ∈ splitAt sep text) :
    sep ∉ piece :=
  fun hsep => (mem_and_ne_of_mem_splitAt h hsep).2 rfl

theorem splitAt_of_not_mem {sep : Char} {text : List Char} (h : sep ∉ text) :
    splitAt sep text = [text] := by
  induction text with
  | nil => rfl
  | cons c rest ih =>
    obtain ⟨hc, hrest⟩ := not_or.1 (mt List.mem_cons.2 h)
    rw [splitAt, if_neg (Ne.symm hc), ih hrest]

theorem splitAt_append_cons {sep : Char} {piece : List Char} (h : sep ∉ piece) (text : List Char) :
    splitAt sep (piece ++ sep :: text) = piece :: splitAt sep text := by
  induction piece with
  | nil => rw [List.nil_append, splitAt, if_pos rfl]
  | cons c rest ih =>
    obtain ⟨hc, hrest⟩ := not_or.1 (mt List.mem_cons.2 h)
    rw [List.cons_append, splitAt, if_neg (Ne.symm hc), ih hrest]

theorem splitAt_intercalate {sep : Char} {pieces : List (List Char)} (hpieces : pieces ≠ [])
    (h : ∀ piece ∈ pieces, sep ∉ piece) : splitAt sep (List.intercalate [sep] pieces) = pieces := by
  induction pieces with
  | nil => exact absurd rfl hpieces
  | cons piece pieces ih =>
    have hpiece : sep ∉ piece := h piece List.mem_cons_self
    cases pieces with
    | nil => rw [List.intercalate_singleton, splitAt_of_not_mem hpiece]
    | cons next rest =>
      have hrest := ih (List.cons_ne_nil next rest) fun p hp => h p (List.mem_cons_of_mem piece hp)
      rw [List.intercalate_cons_cons, List.append_assoc, List.singleton_append,
        splitAt_append_cons hpiece, hrest]

end ConfigLang.Text

import ConfigLang.Proofs.Grammar.Viability

/-!
# Expected tokens in repetitions

Input blocks, objects, arrays and strings repeat their parts up to a closing token. Where the next part or
that token is due, a message names tokens that can stand there. Input blocks, objects and strings name all
that can; arrays name the starts of a value, and leave out the spread and the closing bracket.

* `Repetition`, `Place.repetition?` - the constructs, and the places where they go on.
* `StopsAt` - how far parsing gets.
* `Possible` - the kinds of tokens that can follow.
* `Place.named_of_next?` - what can stand where a construct goes on.
* `repetitions_name_all_that_can_follow_unless_array` - the result.
-/

namespace ConfigLang.Grammar

/-- The constructs that repeat their parts up to a closing token. -/
inductive Repetition where
  | inputBlock
  | object
  | array
  | string
deriving DecidableEq, Repr

/-- The construct of which the next part or the end is due at a place. -/
def Place.repetition? : Place → Option Repetition
  | assignments _ => some .inputBlock
  | entries _ _ => some .object
  | items _ _ => some .array
  | parts _ _ => some .string
  | _ => none

/-- The tokens that can stand where an item of an array is due and that no message names there. -/
def unnamedItems : List Token.Kind := [.symbol .spread, .symbol .bracketClose]

/-- Parsing goes through some tokens and stops at the place behind them: the next token cannot stand there,
or there is none. -/
structure StopsAt (tokens before : List Token) (p : Place) : Prop where
  leads : Place.start.Leads before p
  stops : tokens = before ∨ ∃ t after, tokens = before ++ t :: after ∧ p.next? t = none

/-- Some token of the kind keeps the list viable. -/
def Possible (before : List Token) (k : Token.Kind) : Prop :=
  ∃ t : Token, t.kind = k ∧ Viable (before ++ [t])

variable {p q : Place} {t : Token} {tokens before : List Token} {r : Repetition}

/-! ### Where parsing stops -/

/-- A token that cannot stand behind the tokens in front of it is the one that the error is about. -/
theorem treeOf_of_refused (hlead : Place.start.Leads before p) (hnext : p.next? t = none)
    (after : List Token) : treeOf (before ++ t :: after) = .error (p.refuse t) := by
  have hstep : step p t = .error (p.refuse t) := by
    rw [step, hnext]
  have hlead' : before.foldlM step Place.start = .ok p := hlead
  have hfold : (before ++ t :: after).foldlM step Place.start = .error (p.refuse t) := by
    rw [List.foldlM_append, hlead']
    show (t :: after).foldlM step p = _
    rw [List.foldlM_cons, hstep]
    rfl
  rw [treeOf, hfold]
  rfl

/-- Parsing that stops where a construct goes on says what is expected there. -/
theorem StopsAt.treeOf_eq_error (h : StopsAt tokens before p) (hp : p.repetition? = some r) :
    treeOf tokens = .error (.unexpectedEnd p.expected) ∨
      ∃ found, treeOf tokens = .error (.unexpected p.expected found) := by
  rcases h.stops with rfl | ⟨t, after, rfl, hnext⟩
  · left
    rw [treeOf_of_leads h.leads]
    rcases p.finish_eq with ⟨config, rfl⟩ | hfinish
    · cases hp
    · exact hfinish
  · right
    refine ⟨t, ?_⟩
    rw [treeOf_of_refused h.leads hnext]
    rcases p.refuse_eq t with ⟨config, rfl, -⟩ | hrefuse
    · cases hp
    · rw [hrefuse]

/-! ### What can follow -/

/-- There is a token of each kind. -/
theorem exists_kind_eq (k : Token.Kind) : ∃ t : Token, t.kind = k := by
  cases k with
  | symbol s => exact ⟨.symbol s, rfl⟩
  | segment => exact ⟨.segment "", rfl⟩
  | float => exact ⟨.float 0.0, rfl⟩
  | integer => exact ⟨.integer 0, rfl⟩
  | escape => exact ⟨.escape ' ', rfl⟩
  | characters => exact ⟨.characters "", rfl⟩
  | input => exact ⟨.input "", rfl⟩

/-- The kinds that can follow are those of the tokens that can stand at the place reached. -/
theorem possible_iff (hlead : Place.start.Leads before p) {k : Token.Kind} :
    Possible before k ↔ ∃ t : Token, t.kind = k ∧ ∃ q, p.next? t = some q :=
  exists_congr fun _ => and_congr_right fun _ => viable_concat_iff hlead

/-- A named kind can follow. -/
theorem possible_of_expected (hlead : Place.start.Leads before p) {k : Token.Kind} (h : k ∈ p.expected) :
    Possible before k := by
  obtain ⟨t, rfl⟩ := exists_kind_eq k
  exact ⟨t, rfl, viable_concat_of_expected hlead h⟩

/-- The first token of a value is one of those that are named. -/
theorem kind_mem_valueStart {pending : Pending} (h : beginValue pending t = some q) :
    t.kind ∈ valueStart := by
  unfold beginValue at h
  split at h
  case h_10 => cases h
  all_goals simp [valueStart, Token.kind]

/-- Where a construct goes on, a token that can stand there is named; in an array it may also be one of the
two that are not. -/
theorem Place.named_of_next? (hp : p.repetition? = some r) (hnext : p.next? t = some q) :
    t.kind ∈ p.expected ∨ r = .array ∧ t.kind ∈ unnamedItems := by
  cases p with
  | assignments before =>
    left
    simp only [next?, nextAssignment] at hnext
    split at hnext
    · simp [expected, Token.kind]
    · simp [expected, Token.kind]
    · cases hnext
  | entries before object =>
    left
    simp only [next?, nextEntry] at hnext
    split at hnext
    · simp [expected, Token.kind]
    · simp [expected, Token.kind]
    · simp [expected, Token.kind]
    · cases hnext
  | items before array =>
    obtain rfl := Option.some.inj hp
    simp only [next?, nextItem] at hnext
    split at hnext
    · exact Or.inr ⟨rfl, by simp [unnamedItems, Token.kind]⟩
    · exact Or.inr ⟨rfl, by simp [unnamedItems, Token.kind]⟩
    · exact Or.inl (kind_mem_valueStart hnext)
  | parts before string =>
    left
    rcases cases_of_nextPart hnext with
      ⟨text, rfl, -⟩ | ⟨c, rfl, -⟩ | ⟨name, rfl, -⟩ | ⟨rfl, -⟩ <;> simp [expected, Token.kind]
  | _ => cases hp

/-- The two tokens can stand where an item of an array is due. -/
theorem Place.exists_next?_of_unnamed (hp : p.repetition? = some .array)
    (h : t.kind ∈ unnamedItems) : ∃ q, p.next? t = some q := by
  cases p with
  | items before array =>
    cases t with
    | symbol s =>
      cases s <;>
        first
        | exact ⟨_, rfl⟩
        | simp [unnamedItems, Token.kind] at h
    | _ => simp [unnamedItems, Token.kind] at h
  | _ => cases hp

/-- The starts of a value are named in an array. -/
theorem Place.expected_of_array (hp : p.repetition? = some .array) : p.expected = valueStart := by
  cases p with
  | items before array => rfl
  | _ => cases hp

/-- Where the next part or the end of a construct is due, an error names each kind of token that could stand
there, except in an array: there the spread and the closing bracket could stand as well, and neither is named. -/
theorem repetitions_name_all_that_can_follow_unless_array (hstop : StopsAt tokens before p)
    (hp : p.repetition? = some r) :
    ∃ expected,
      (treeOf tokens = .error (.unexpectedEnd expected) ∨
        ∃ found, treeOf tokens = .error (.unexpected expected found)) ∧
      (r ≠ .array → ∀ k, Possible before k ↔ k ∈ expected) ∧
      (r = .array → ∀ k, (Possible before k ↔ k ∈ expected ∨ k ∈ unnamedItems) ∧
        (k ∈ unnamedItems → k ∉ expected)) := by
  have hlead := hstop.leads
  have hnamed : ∀ k, Possible before k → k ∈ p.expected ∨ r = .array ∧ k ∈ unnamedItems := by
    intro k hk
    obtain ⟨t, rfl, q, hnext⟩ := (possible_iff hlead).1 hk
    exact Place.named_of_next? hp hnext
  refine ⟨p.expected, hstop.treeOf_eq_error hp, fun hne k => ?_, ?_⟩
  · refine ⟨fun hk => ?_, possible_of_expected hlead⟩
    rcases hnamed k hk with hmem | ⟨harray, -⟩
    · exact hmem
    · exact absurd harray hne
  · rintro rfl k
    have hunnamed : k ∈ unnamedItems → Possible before k := by
      intro hk
      obtain ⟨t, rfl⟩ := exists_kind_eq k
      exact (possible_iff hlead).2 ⟨t, rfl, Place.exists_next?_of_unnamed hp hk⟩
    refine ⟨⟨fun hk => (hnamed k hk).imp_right And.right, ?_⟩, ?_⟩
    · rintro (hk | hk)
      · exact possible_of_expected hlead hk
      · exact hunnamed hk
    · intro hk
      rw [Place.expected_of_array hp]
      have hdisjoint : ∀ k ∈ unnamedItems, k ∉ valueStart := by decide
      exact hdisjoint k hk

/-- In an array inside an input block a key stands where an item is due: the error names what begins a value,
while the array could also be closed there. -/
theorem key_in_array_of_input :
    let before : List Token := [.symbol .letWord, .symbol .braceOpen, .input "$x", .symbol .equals,
      .symbol .bracketOpen, .integer 1]
    treeOf (before ++ [.segment "a"]) = .error (.unexpected valueStart (.segment "a")) ∧
      Possible before .float ∧ Possible before (.symbol .bracketClose) ∧
      Token.Kind.symbol .bracketClose ∉ valueStart ∧ ¬ Possible before .segment := by
  intro before
  have hlead : Place.start.Leads before
      (.items #[.leaf .integer (.integer 1)] (.assignment #[] "$x")) := rfl
  have hstop : StopsAt (before ++ [.segment "a"]) before
      (.items #[.leaf .integer (.integer 1)] (.assignment #[] "$x")) :=
    ⟨hlead, Or.inr ⟨_, [], rfl, rfl⟩⟩
  have herror : treeOf (before ++ [.segment "a"]) = .error (.unexpected valueStart (.segment "a")) := rfl
  obtain ⟨expected, hexpected, -, harray⟩ :=
    repetitions_name_all_that_can_follow_unless_array (r := .array) hstop rfl
  have hvalue : expected = valueStart := by
    rcases hexpected with hend | ⟨found, hfound⟩
    · cases herror.symm.trans hend
    · exact (ParseError.unexpected.inj (Except.error.inj (herror.symm.trans hfound))).1.symm
  subst hvalue
  refine ⟨herror, ?_, ?_, ?_, ?_⟩
  · exact (harray rfl _).1.2 (Or.inl (by decide))
  · exact (harray rfl _).1.2 (Or.inr (by decide))
  · exact (harray rfl _).2 (by decide)
  · intro hk
    have hmem := (harray rfl _).1.1 hk
    revert hmem
    decide

/-- An array that ends too early could be closed, or go on with a spread, and the error names neither. -/
theorem open_array_hides_its_closing_bracket :
    let before : List Token := [.symbol .braceOpen, .segment "a", .symbol .equals, .symbol .bracketOpen,
      .integer 1]
    treeOf before = .error (.unexpectedEnd valueStart) ∧
      StopsAt before before (.items #[.leaf .integer (.integer 1)]
        (.pair #[] #[.leaf .pathSegment (.text "a")] (.root none))) ∧
      Accepted (before ++ [.symbol .bracketClose] ++ [.symbol .braceClose]) ∧
      Token.Kind.symbol .bracketClose ∉ valueStart ∧
      Accepted (before ++ [.symbol .spread] ++ [.input "$x", .symbol .bracketClose, .symbol .braceClose]) ∧
      Token.Kind.symbol .spread ∉ valueStart :=
  ⟨rfl, ⟨rfl, Or.inl rfl⟩, ⟨_, rfl⟩, by decide, ⟨_, rfl⟩, by decide⟩

end ConfigLang.Grammar

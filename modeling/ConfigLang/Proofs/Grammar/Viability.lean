import ConfigLang.Proofs.Grammar.Walk

/-!
# Parse errors point at the first impossible token

A list of tokens is viable if some more tokens make a document of it. From each place in the grammar some
tokens lead to the end of a document, so the viable lists are those that parsing gets through, whether or not
it asks for more at their end. The token that an error is about is the first one that makes a list not viable.

* `Accepted`, `Viable` - the lists with a tree, and those that some more tokens give a tree.
* `Pending.completable_deliver`, `Place.completable` - from each place the end of a document can be reached.
* `Place.exists_next?_of_expected` - each token that is named at a place can stand there.
* `parse_errors_point_at_the_first_impossible_token` - the result.
-/

namespace ConfigLang.Grammar

/-- The tokens have a tree. -/
def Accepted (tokens : List Token) : Prop := ∃ tree, treeOf tokens = .ok tree

/-- Some more tokens make a list that has a tree. -/
def Viable (tokens : List Token) : Prop := ∃ more, Accepted (tokens ++ more)

/-! ### Getting to the end of a document -/

/-- Some tokens lead from the place to the end of a document. -/
def Place.Completable (p : Place) : Prop := ∃ tokens config, p.Leads tokens (.done config)

variable {p q : Place} {t : Token} {before tokens : List Token}

theorem Place.Completable.of_next? (h : p.next? t = some q) (hq : q.Completable) : p.Completable := by
  obtain ⟨tokens, config, hlead⟩ := hq
  exact ⟨t :: tokens, config, .cons h hlead⟩

theorem Place.completable_done (config : Node) : (Place.done config).Completable :=
  ⟨[], config, .refl _⟩

/-- The constructs around a finished value can be closed one after the other, from the inside out. -/
theorem Pending.completable_deliver (pending : Pending) (v : Node) :
    (pending.deliver v).Completable := by
  induction pending generalizing v with
  | root inputs =>
    cases inputs with
    | none => exact Place.completable_done _
    | some block => exact Place.completable_done _
  | assignment before name =>
    -- The input block is closed and an empty root object follows.
    refine .of_next? (t := .symbol .braceClose) rfl (.of_next? (t := .symbol .inWord) rfl ?_)
    refine .of_next? (t := .symbol .braceOpen) rfl (.of_next? (t := .symbol .braceClose) rfl ?_)
    exact Place.completable_done _
  | pair before path object ih => exact .of_next? (t := .symbol .braceClose) rfl (ih _)
  | item before array ih => exact .of_next? (t := .symbol .bracketClose) rfl (ih _)

/-- From each place the end of a document can be reached. -/
theorem Place.completable (p : Place) : p.Completable := by
  have hentries : ∀ before object, (Place.entries before object).Completable :=
    fun before object => .of_next? (t := .symbol .braceClose) rfl (object.completable_deliver _)
  have hvalue : ∀ pending : Pending, (Place.value pending).Completable :=
    fun pending => .of_next? (t := .symbol .nullWord) rfl (pending.completable_deliver _)
  have hrootStart : ∀ inputs, (Place.rootStart inputs).Completable :=
    fun inputs => .of_next? (t := .symbol .braceOpen) rfl (hentries _ _)
  have hblockEnd : ∀ given, (Place.blockEnd given).Completable :=
    fun given => .of_next? (t := .symbol .inWord) rfl (hrootStart _)
  have hassignments : ∀ before, (Place.assignments before).Completable :=
    fun before => .of_next? (t := .symbol .braceClose) rfl (hblockEnd _)
  have hpathEnd : ∀ before path object, (Place.pathEnd before path object).Completable :=
    fun before path object => .of_next? (t := .symbol .equals) rfl (hvalue _)
  have hitems : ∀ before array, (Place.items before array).Completable :=
    fun before array => .of_next? (t := .symbol .bracketClose) rfl (array.completable_deliver _)
  cases p with
  | start => exact .of_next? (t := .symbol .braceOpen) rfl (hentries _ _)
  | blockStart => exact .of_next? (t := .symbol .braceOpen) rfl (hassignments _)
  | assignments before => exact hassignments before
  | inputName before name => exact .of_next? (t := .symbol .equals) rfl (hvalue _)
  | blockEnd given => exact hblockEnd given
  | rootStart inputs => exact hrootStart inputs
  | value pending => exact hvalue pending
  | entries before object => exact hentries before object
  | entrySpread before object => exact .of_next? (t := .input "") rfl (hentries _ _)
  | segment before path object => exact .of_next? (t := .segment "") rfl (hpathEnd _ _ _)
  | pathEnd before path object => exact hpathEnd before path object
  | items before array => exact hitems before array
  | itemSpread before array => exact .of_next? (t := .input "") rfl (hitems _ _)
  | parts before string =>
    exact .of_next? (t := .symbol .doubleQuote) rfl (string.completable_deliver _)
  | done config => exact Place.completable_done config

/-! ### Viable lists -/

theorem accepted_iff : Accepted tokens ↔ ∃ config, Place.start.Leads tokens (.done config) :=
  exists_congr fun _ => treeOf_eq_ok_iff

/-- The viable lists are those that parsing gets through. -/
theorem viable_iff : Viable tokens ↔ ∃ p, Place.start.Leads tokens p := by
  constructor
  · rintro ⟨more, hmore⟩
    obtain ⟨config, hlead⟩ := accepted_iff.1 hmore
    obtain ⟨p, hp, -⟩ := Place.leads_append_iff.1 hlead
    exact ⟨p, hp⟩
  · rintro ⟨p, hp⟩
    obtain ⟨more, config, hlead⟩ := p.completable
    exact ⟨more, accepted_iff.2 ⟨config, hp.append hlead⟩⟩

/-- Tokens lead to one place only. -/
theorem Place.Leads.unique {r : Place} (hq : p.Leads tokens q) (hr : p.Leads tokens r) : q = r :=
  Except.ok.inj (hq.symm.trans hr)

/-- One more token keeps a list viable if and only if it can stand at the place that the list leads to. -/
theorem viable_concat_iff (hlead : Place.start.Leads before p) :
    Viable (before ++ [t]) ↔ ∃ q, p.next? t = some q := by
  rw [viable_iff]
  constructor
  · rintro ⟨q, hq⟩
    obtain ⟨p', hp', hstep⟩ := Place.leads_append_iff.1 hq
    obtain rfl := hlead.unique hp'
    obtain ⟨q', hq', -⟩ := Place.leads_cons_iff.1 hstep
    exact ⟨q', hq'⟩
  · rintro ⟨q, hq⟩
    exact ⟨q, hlead.append (.single hq)⟩

/-! ### Expected tokens -/

/-- Each token of a kind that is named at a place can stand there. -/
theorem Place.exists_next?_of_expected (h : t.kind ∈ p.expected) : ∃ q, p.next? t = some q := by
  cases t with
  | symbol s =>
    cases p <;> cases s <;>
      first
      | exact ⟨_, rfl⟩
      | simp [expected, valueStart, Token.kind] at h
  | _ =>
    cases p <;>
      first
      | exact ⟨_, rfl⟩
      | simp [expected, valueStart, Token.kind] at h

theorem viable_concat_of_expected (hlead : Place.start.Leads before p) (h : t.kind ∈ p.expected) :
    Viable (before ++ [t]) :=
  (viable_concat_iff hlead).2 (Place.exists_next?_of_expected h)

/-! ### The errors -/

/-- A refused token is left over behind a document, or it stands where others are expected. -/
theorem Place.refuse_eq (p : Place) (t : Token) :
    (∃ config, p = .done config ∧ p.refuse t = .trailing t) ∨
      p.refuse t = .unexpected p.expected t := by
  cases p with
  | done config => exact Or.inl ⟨config, rfl, rfl⟩
  | _ => exact Or.inr rfl

/-- At the end of a document nothing is missing, elsewhere one of the tokens that the place expects. -/
theorem Place.finish_eq (p : Place) :
    (∃ config, p = .done config) ∨ p.finish = .error (.unexpectedEnd p.expected) := by
  cases p with
  | done config => exact Or.inl ⟨config, rfl⟩
  | _ => exact Or.inr rfl

/-- Tokens that lead somewhere have a tree, or they end too early. -/
theorem treeOf_of_leads (hlead : Place.start.Leads tokens p) : treeOf tokens = p.finish := by
  rw [treeOf, hlead]
  rfl

/-- A list that is not viable has a token that is refused where the tokens in front of it lead. -/
theorem exists_refused_of_not_viable (h : ¬ Viable tokens) :
    ∃ before t after p, tokens = before ++ t :: after ∧ Place.start.Leads before p ∧
      ¬ Viable (before ++ [t]) ∧ treeOf tokens = .error (p.refuse t) := by
  cases htree : treeOf tokens with
  | ok tree => exact absurd ⟨[], tree, by rwa [List.append_nil]⟩ h
  | error e =>
    rcases cases_of_treeOf_eq_error htree with
      ⟨before, t, after, p, heq, hlead, hnone, rfl⟩ | ⟨p, hlead, -⟩
    · refine ⟨before, t, after, p, heq, hlead, ?_, rfl⟩
      rw [viable_concat_iff hlead, hnone]
      rintro ⟨q, hq⟩
      cases hq
    · exact absurd (viable_iff.2 ⟨p, hlead⟩) h

/-- A viable list has a tree, or all that is wrong with it is that it ends too early. -/
theorem Viable.accepted_or_unexpectedEnd (h : Viable tokens) :
    Accepted tokens ∨ ∃ expected, treeOf tokens = .error (.unexpectedEnd expected) := by
  obtain ⟨p, hlead⟩ := viable_iff.1 h
  have htree := treeOf_of_leads hlead
  rcases p.finish_eq with ⟨config, rfl⟩ | hfinish
  · exact Or.inl ⟨config, htree⟩
  · exact Or.inr ⟨p.expected, htree.trans hfinish⟩

/-- A list that is not viable has a token that is wrong or left over. -/
theorem unexpected_or_trailing_of_not_viable (h : ¬ Viable tokens) :
    (∃ expected found, treeOf tokens = .error (.unexpected expected found)) ∨
      ∃ found, treeOf tokens = .error (.trailing found) := by
  obtain ⟨before, t, after, p, -, -, -, htree⟩ := exists_refused_of_not_viable h
  rcases p.refuse_eq t with ⟨config, -, hrefuse⟩ | hrefuse
  · exact Or.inr ⟨t, by rw [htree, hrefuse]⟩
  · exact Or.inl ⟨p.expected, t, by rw [htree, hrefuse]⟩

/-- A list that ends too early is viable, and the expected tokens are those of the place it leads to. -/
theorem exists_leads_of_unexpectedEnd {expected : List Token.Kind}
    (h : treeOf tokens = .error (.unexpectedEnd expected)) :
    ∃ p, Place.start.Leads tokens p ∧ p.expected = expected := by
  rcases cases_of_treeOf_eq_error h with ⟨before, t, after, p, -, -, -, hrefuse⟩ | ⟨p, hlead, hfinish⟩
  · rcases p.refuse_eq t with ⟨config, -, heq⟩ | heq
    · cases hrefuse.trans heq
    · cases hrefuse.trans heq
  · rcases p.finish_eq with ⟨config, rfl⟩ | heq
    · cases hfinish
    · exact ⟨p, hlead, ParseError.unexpectedEnd.inj (Except.error.inj (heq.symm.trans hfinish))⟩

/-- A list with an error about one of its tokens is not viable. -/
theorem not_viable_of_error {e : ParseError} (h : treeOf tokens = .error e)
    (he : ∀ expected, e ≠ .unexpectedEnd expected) : ¬ Viable tokens := by
  intro hviable
  rcases hviable.accepted_or_unexpectedEnd with ⟨tree, htree⟩ | ⟨expected, htree⟩
  · cases h.symm.trans htree
  · exact he expected (Except.error.inj (h.symm.trans htree))

/-- Where parsing finds a wrong token, the tokens in front of it are viable, and with it they are not. Where
it finds the end too early, the tokens are viable without having a tree. Each of the expected tokens would have
kept the list viable there. A token that is left over stands behind a document. A list fails in the second way
only if it is viable and in the other two only if it is not, and there is a tree in all other cases. -/
theorem parse_errors_point_at_the_first_impossible_token (tokens : List Token) :
    (∀ expected found, treeOf tokens = .error (.unexpected expected found) →
      ∃ before after, tokens = before ++ found :: after ∧ Viable before ∧
        ¬ Viable (before ++ [found]) ∧ ∀ t : Token, t.kind ∈ expected → Viable (before ++ [t])) ∧
    (∀ expected, treeOf tokens = .error (.unexpectedEnd expected) →
      Viable tokens ∧ ¬ Accepted tokens ∧
        ∀ t : Token, t.kind ∈ expected → Viable (tokens ++ [t])) ∧
    (∀ found, treeOf tokens = .error (.trailing found) →
      ∃ before after, tokens = before ++ found :: after ∧ Accepted before ∧
        ¬ Viable (before ++ [found])) ∧
    (Viable tokens →
      Accepted tokens ∨ ∃ expected, treeOf tokens = .error (.unexpectedEnd expected)) ∧
    (¬ Viable tokens →
      (∃ expected found, treeOf tokens = .error (.unexpected expected found)) ∨
        ∃ found, treeOf tokens = .error (.trailing found)) := by
  refine ⟨fun expected found herror => ?_, fun expected herror => ?_, fun found herror => ?_,
    Viable.accepted_or_unexpectedEnd, unexpected_or_trailing_of_not_viable⟩
  · obtain ⟨before, t, after, p, heq, hlead, hnot, htree⟩ :=
      exists_refused_of_not_viable (not_viable_of_error herror fun _ h => by cases h)
    have hrefuse := Except.error.inj (htree.symm.trans herror)
    rcases p.refuse_eq t with ⟨config, -, hwrong⟩ | hwrong
    · cases hwrong.symm.trans hrefuse
    · obtain ⟨rfl, rfl⟩ := ParseError.unexpected.inj (hwrong.symm.trans hrefuse)
      exact ⟨before, after, heq, viable_iff.2 ⟨p, hlead⟩, hnot,
        fun u hu => viable_concat_of_expected hlead hu⟩
  · obtain ⟨p, hlead, rfl⟩ := exists_leads_of_unexpectedEnd herror
    refine ⟨viable_iff.2 ⟨p, hlead⟩, ?_, fun u hu => viable_concat_of_expected hlead hu⟩
    rintro ⟨tree, htree⟩
    cases herror.symm.trans htree
  · obtain ⟨before, t, after, p, heq, hlead, hnot, htree⟩ :=
      exists_refused_of_not_viable (not_viable_of_error herror fun _ h => by cases h)
    have hrefuse := Except.error.inj (htree.symm.trans herror)
    rcases p.refuse_eq t with ⟨config, rfl, hleft⟩ | hwrong
    · obtain rfl := ParseError.trailing.inj (hleft.symm.trans hrefuse)
      exact ⟨before, after, heq, accepted_iff.2 ⟨config, hlead⟩, hnot⟩
    · cases hwrong.symm.trans hrefuse

/-- A brace where the value of a nested pair is due, and the tokens up to there. -/
theorem missing_value_points_at_the_brace :
    let before : List Token := [.symbol .braceOpen, .segment "a", .symbol .equals, .symbol .bracketOpen,
      .symbol .braceOpen, .segment "b", .symbol .dot, .segment "c", .symbol .equals]
    treeOf before = .error (.unexpectedEnd valueStart) ∧ Viable before ∧
      Viable (before ++ [.symbol .doubleQuote]) ∧
      treeOf (before ++ [.symbol .braceClose, .symbol .bracketClose]) =
        .error (.unexpected valueStart (.symbol .braceClose)) ∧
      ∃ first rest, before ++ [.symbol .braceClose, .symbol .bracketClose] =
        first ++ .symbol .braceClose :: rest ∧ Viable first ∧
          ¬ Viable (first ++ [.symbol .braceClose]) := by
  intro before
  have hearly : treeOf before = .error (.unexpectedEnd valueStart) := rfl
  have hwrong : treeOf (before ++ [.symbol .braceClose, .symbol .bracketClose]) =
      .error (.unexpected valueStart (.symbol .braceClose)) := rfl
  obtain ⟨hviable, -, hmore⟩ :=
    (parse_errors_point_at_the_first_impossible_token before).2.1 _ hearly
  obtain ⟨first, rest, heq, hfirst, hnot, -⟩ :=
    (parse_errors_point_at_the_first_impossible_token _).1 _ _ hwrong
  exact ⟨hearly, hviable, hmore _ (by decide), hwrong, first, rest, heq, hfirst, hnot⟩

end ConfigLang.Grammar

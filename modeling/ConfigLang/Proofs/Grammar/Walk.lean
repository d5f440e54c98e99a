import ConfigLang.Grammar.Tree

/-!
# From place to place

Parsing goes from place to place, one token at a time. `Place.Leads` says where a list of tokens leads,
and a list of tokens has a tree if and only if it leads from the start of a document to its end.

* `Place.Leads` - the tokens that lead from one place to another.
* `cases_of_nextPart` - what can be inside a string.
* `treeOf_eq_ok_iff` - the lists of tokens that have a tree.
* `cases_of_treeOf_eq_error` - why the others have none.
-/

namespace ConfigLang.Grammar

/-- The tokens lead from the first place to the second. -/
def Place.Leads (p : Place) (tokens : List Token) (q : Place) : Prop :=
  tokens.foldlM step p = .ok q

namespace Place

variable {p q r : Place} {t : Token} {ts us : List Token}

theorem step_eq_ok_iff : step p t = .ok q ↔ p.next? t = some q := by
  unfold step
  cases p.next? t with
  | none =>
    constructor
    · intro h
      cases h
    · intro h
      cases h
  | some next => rw [Except.ok.injEq, Option.some.injEq]

theorem leads_nil_iff : p.Leads [] q ↔ p = q := by
  rw [Leads, List.foldlM_nil]
  exact ⟨fun h => Except.ok.inj h, fun h => congrArg Except.ok h⟩

theorem leads_cons_iff : p.Leads (t :: ts) r ↔ ∃ q, p.next? t = some q ∧ q.Leads ts r := by
  rw [Leads, List.foldlM_cons]
  cases hstep : step p t with
  | error e =>
    constructor
    · intro h
      cases h
    · rintro ⟨q, hq, -⟩
      rw [step_eq_ok_iff.2 hq] at hstep
      cases hstep
  | ok next =>
    constructor
    · intro h
      exact ⟨next, step_eq_ok_iff.1 hstep, h⟩
    · rintro ⟨q, hq, h⟩
      rw [step_eq_ok_iff.2 hq] at hstep
      obtain rfl := Except.ok.inj hstep
      exact h

theorem leads_append_iff : p.Leads (ts ++ us) r ↔ ∃ q, p.Leads ts q ∧ q.Leads us r := by
  induction ts generalizing p with
  | nil =>
    constructor
    · intro h
      exact ⟨p, leads_nil_iff.2 rfl, h⟩
    · rintro ⟨q, hpq, h⟩
      rwa [leads_nil_iff.1 hpq]
  | cons t ts ih =>
    rw [List.cons_append, leads_cons_iff]
    constructor
    · rintro ⟨q, hq, h⟩
      obtain ⟨q', hts, hus⟩ := ih.1 h
      exact ⟨q', leads_cons_iff.2 ⟨q, hq, hts⟩, hus⟩
    · rintro ⟨q', hts, hus⟩
      obtain ⟨q, hq, hts⟩ := leads_cons_iff.1 hts
      exact ⟨q, hq, ih.2 ⟨q', hts, hus⟩⟩

theorem Leads.refl (p : Place) : p.Leads [] p := leads_nil_iff.2 rfl

theorem Leads.cons (hq : p.next? t = some q) (h : q.Leads ts r) : p.Leads (t :: ts) r :=
  leads_cons_iff.2 ⟨q, hq, h⟩

theorem Leads.append (hpq : p.Leads ts q) (hqr : q.Leads us r) : p.Leads (ts ++ us) r :=
  leads_append_iff.2 ⟨q, hpq, hqr⟩

theorem Leads.single (hq : p.next? t = some q) : p.Leads [t] q := Leads.cons hq (Leads.refl q)

end Place

/-- The tokens of a string, and where each of them leads. -/
theorem cases_of_nextPart {before : Array Node} {string : Pending} {t : Token} {q : Place}
    (h : nextPart before string t = some q) :
    (∃ text, t = .characters text ∧
        q = .parts (before.push (.leaf .charSequence (.text text))) string) ∨
      (∃ c, t = .escape c ∧ q = .parts (before.push (.leaf .charEscape (.char c))) string) ∨
      (∃ name, t = .input name ∧ q = .parts (before.push (.leaf .input (.text name))) string) ∨
      t = .symbol .doubleQuote ∧ q = string.deliver (.branch .string before.toList) := by
  cases t with
  | characters text => exact Or.inl ⟨text, rfl, (Option.some.inj h).symm⟩
  | escape c => exact Or.inr (Or.inl ⟨c, rfl, (Option.some.inj h).symm⟩)
  | input name => exact Or.inr (Or.inr (Or.inl ⟨name, rfl, (Option.some.inj h).symm⟩))
  | symbol s =>
    cases s with
    | doubleQuote => exact Or.inr (Or.inr (Or.inr ⟨rfl, (Option.some.inj h).symm⟩))
    | _ => cases h
  | _ => cases h

/-- A list of tokens has a tree if and only if it leads from the start to the end of a document. -/
theorem treeOf_eq_ok_iff {tokens : List Token} {tree : Node} :
    treeOf tokens = .ok tree ↔ Place.start.Leads tokens (.done tree) := by
  unfold treeOf Place.Leads
  cases tokens.foldlM step Place.start with
  | error e =>
    constructor
    · intro h
      cases h
    · intro h
      cases h
  | ok last =>
    constructor
    · intro h
      cases last with
      | done config => rw [Except.ok.inj h]
      | _ => cases h
    · intro h
      rw [Except.ok.inj h]
      rfl

/-- Parsing that fails on the way has come to a token that cannot stand at its place. -/
theorem Place.exists_refused_of_foldlM {p : Place} {tokens : List Token} {e : ParseError}
    (h : tokens.foldlM step p = .error e) :
    ∃ before t after q, tokens = before ++ t :: after ∧ p.Leads before q ∧ q.next? t = none ∧
      e = q.refuse t := by
  induction tokens generalizing p with
  | nil => cases h
  | cons t tokens ih =>
    rw [List.foldlM_cons] at h
    cases hnext : p.next? t with
    | none =>
      have hstep : step p t = .error (p.refuse t) := by rw [step, hnext]
      rw [hstep] at h
      exact ⟨[], t, tokens, p, rfl, Leads.refl p, hnext, (Except.error.inj h).symm⟩
    | some next =>
      rw [step_eq_ok_iff.2 hnext] at h
      obtain ⟨before, u, after, q, rfl, hlead, hrest⟩ := ih h
      exact ⟨t :: before, u, after, q, rfl, Leads.cons hnext hlead, hrest⟩

/-- A list of tokens without a tree has a token that cannot stand at its place, or it ends too early. -/
theorem cases_of_treeOf_eq_error {tokens : List Token} {e : ParseError}
    (h : treeOf tokens = .error e) :
    (∃ before t after p, tokens = before ++ t :: after ∧ Place.start.Leads before p ∧
        p.next? t = none ∧ e = p.refuse t) ∨
      ∃ p, Place.start.Leads tokens p ∧ p.finish = .error e := by
  unfold treeOf at h
  cases hlast : tokens.foldlM step Place.start with
  | error wrong =>
    rw [hlast] at h
    rw [← Except.error.inj h]
    exact Or.inl (Place.exists_refused_of_foldlM hlast)
  | ok last =>
    rw [hlast] at h
    exact Or.inr ⟨last, hlast, h⟩

end ConfigLang.Grammar

import ConfigLang.Proofs.Eval.Simulation
import ConfigLang.Proofs.Value.Writes

/-!
# Entries one by one

An object is evaluated entry by entry, and each entry does one of two things to the fields: a spread merges
other fields in, and a pair writes a value at a path. What is said here of single entries is what statements
about whole objects are put together from.

* `SameOutcome` - two computations that both fail or both give the same.
* `Node.evalItems_append`, `Node.evalEntries_append` - items and entries in two parts.
* `Node.cases_of_evalEntry` - all that an entry can do.
* `Node.pathKeys_cons` - the keys of a path, the first one apart.
-/

namespace ConfigLang

/-! ### Outcomes -/

/-- Both computations fail, or both give the same. -/
inductive SameOutcome {ε α : Type} : Except ε α → Except ε α → Prop
  | fail (e e' : ε) : SameOutcome (.error e) (.error e')
  | give (a : α) : SameOutcome (.ok a) (.ok a)

namespace SameOutcome

variable {ε α β γ : Type} {x y z : Except ε α}

theorem refl (x : Except ε α) : SameOutcome x x := by
  cases x with
  | error e => exact .fail e e
  | ok a => exact .give a

theorem of_eq (h : x = y) : SameOutcome x y := h ▸ refl x

theorem symm (h : SameOutcome x y) : SameOutcome y x := by
  cases h with
  | fail e e' => exact .fail e' e
  | give a => exact .give a

theorem trans (hxy : SameOutcome x y) (hyz : SameOutcome y z) : SameOutcome x z := by
  cases hxy with
  | fail e e' =>
    cases hyz with
    | fail _ e'' => exact .fail e e''
  | give a => exact hyz

theorem eq_ok {a : α} (hxy : SameOutcome x y) (hy : y = .ok a) : x = .ok a := by
  cases hxy with
  | fail e e' => cases hy
  | give b => exact hy

/-- Going on in the same way keeps the outcome the same. -/
theorem bind {f g : α → Except ε β} (hxy : SameOutcome x y) (hfg : ∀ a, SameOutcome (f a) (g a)) :
    SameOutcome (x >>= f) (y >>= g) := by
  cases hxy with
  | fail e e' => exact .fail e e'
  | give a => exact hfg a

/-- Two computations that do not need each other may come in either order. -/
theorem bind_comm (x : Except ε α) (y : Except ε β) (f : α → β → Except ε γ) :
    SameOutcome (x >>= fun a => y >>= fun b => f a b) (y >>= fun b => x >>= fun a => f a b) := by
  cases x with
  | error e =>
    cases y with
    | error e' => exact .fail e e'
    | ok b => exact .fail e e
  | ok a =>
    cases y with
    | error e' => exact .fail e' e'
    | ok b => exact refl (f a b)

end SameOutcome

namespace Node

/-! ### Items and entries in two parts -/

section Parts

variable {m : Type → Type} [Monad m] [MonadExcept EvalError m]

theorem evalEntry_of_spread (resolve : Resolver m) (fields : OrderedMap Value) {entry : Node}
    (hkind : entry.kind = .spread) :
    evalEntry resolve fields entry =
      entry.spreadFields resolve >>= fun spread => pure (fields.merge spread) := by
  obtain ⟨kind, literal, children⟩ := entry
  obtain rfl : kind = .spread := hkind
  rw [evalEntry]

theorem name_of_text? {n : Node} {text : String} (h : n.text? = some text) :
    (n.name : m String) = pure text := by
  simp only [name, h]

/-- The keys of a path begin with that of its first segment. -/
theorem pathKeys_cons (literal : Option Literal) (first : Node) (rest : List Node) [LawfulMonad m] :
    (pathKeys ⟨.path, literal, first :: rest⟩ : m (List String)) = (do
      let key ← first.name
      let keys ← pathKeys ⟨.path, literal, rest⟩
      pure (key :: keys)) := by
  simp only [pathKeys, if_true, List.mapM_cons]

variable [LawfulMonad m]

theorem evalItems_append (resolve : Resolver m) (items others : List Node) :
    evalItems resolve (items ++ others) = (do
      let values ← evalItems resolve items
      let more ← evalItems resolve others
      pure (values ++ more)) := by
  induction items with
  | nil => simp only [List.nil_append, evalItems, pure_bind, bind_pure]
  | cons item items ih => simp only [List.cons_append, evalItems, ih, bind_assoc, pure_bind,
      List.append_assoc]

theorem evalEntries_append (resolve : Resolver m) (fields : OrderedMap Value)
    (entries others : List Node) :
    evalEntries resolve fields (entries ++ others) =
      evalEntries resolve fields entries >>= fun fields => evalEntries resolve fields others := by
  induction entries generalizing fields with
  | nil => simp only [List.nil_append, evalEntries, pure_bind]
  | cons entry entries ih => simp only [List.cons_append, evalEntries, ih, bind_assoc]

end Parts

/-! ### One entry -/

/-- A node with a name carries it as its text. -/
theorem text?_of_name {n : Node} {text : String} (h : n.name = (.ok text : Except EvalError String)) :
    n.text? = some text := by
  unfold name at h
  split at h
  next htext => rw [htext, Except.ok.inj h]
  · cases h

section Entries

variable {resolve : Resolver (Except EvalError)} {fields written : OrderedMap Value} {entry : Node}

theorem evalEntry_pair (resolve : Resolver (Except EvalError)) (fields : OrderedMap Value)
    (literal : Option Literal) (path node : Node) :
    evalEntry resolve fields ⟨.pair, literal, [path, node]⟩ = (do
      let keys ← path.pathKeys
      let value ← node.eval resolve
      (writeAt fields keys value).mapError .ofPathError) := by
  rw [evalEntry]
  refine bind_congr fun keys => bind_congr fun value => ?_
  cases writeAt fields keys value <;> rfl

/-- An entry is a spread, or a pair of a path and a node, or evaluation fails at it. -/
theorem spread_or_pair_or_error (resolve : Resolver (Except EvalError)) (entry : Node) :
    entry.kind = .spread ∨ (∃ literal path node, entry = ⟨.pair, literal, [path, node]⟩) ∨
      ∃ e, ∀ fields, evalEntry resolve fields entry = .error e := by
  by_cases hspread : entry.kind = .spread
  · exact Or.inl hspread
  · by_cases hpair : ∃ literal path node, entry = ⟨.pair, literal, [path, node]⟩
    · exact Or.inr (Or.inl hpair)
    · have herror : ∃ e, ∀ fields, evalEntry resolve fields entry = .error e := by
        unfold evalEntry
        split
        · exact absurd rfl hspread
        next literal path node => exact absurd ⟨literal, path, node, rfl⟩ hpair
        · exact ⟨_, fun fields => rfl⟩
        · exact ⟨_, fun fields => rfl⟩
      exact Or.inr (Or.inr herror)

/-- All that an entry can do: a spread merges fields in, and a pair writes its value at its path. -/
theorem cases_of_evalEntry (h : evalEntry resolve fields entry = .ok written) :
    (entry.kind = .spread ∧
      ∃ spread, entry.spreadFields resolve = .ok spread ∧ written = fields.merge spread) ∨
    ∃ literal path node keys value, entry = ⟨.pair, literal, [path, node]⟩ ∧
      path.pathKeys = (.ok keys : Except EvalError (List String)) ∧ node.eval resolve = .ok value ∧
      writeAt fields keys value = .ok written := by
  rcases spread_or_pair_or_error resolve entry with hspread | ⟨literal, path, node, rfl⟩ | ⟨e, he⟩
  · rw [evalEntry_of_spread resolve fields hspread] at h
    obtain ⟨spread, hfields, h⟩ := exists_of_bind_eq_ok h
    exact Or.inl ⟨hspread, spread, hfields, (Except.ok.inj h).symm⟩
  · rw [evalEntry_pair] at h
    obtain ⟨keys, hkeys, h⟩ := exists_of_bind_eq_ok h
    obtain ⟨value, hvalue, h⟩ := exists_of_bind_eq_ok h
    refine Or.inr ⟨literal, path, node, keys, value, rfl, hkeys, hvalue, ?_⟩
    cases hwrite : writeAt fields keys value with
    | error e =>
      rw [hwrite] at h
      cases h
    | ok after =>
      rw [hwrite] at h
      exact congrArg Except.ok (Except.ok.inj h)
  · rw [he] at h
    cases h

end Entries

end Node

end ConfigLang

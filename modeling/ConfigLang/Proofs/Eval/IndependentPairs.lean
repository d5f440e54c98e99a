import ConfigLang.Eval.Scope
import ConfigLang.Proofs.Eval.Entries
import ConfigLang.Proofs.Value.KeyOrder

/-!
# Pairs that do not need each other

Two pairs that stand next to each other in an object write at two paths. If neither path begins with the
other, the pairs may change places: evaluation fails in both orders, or it gives objects in both that are
the same but for the order of keys. All entries behind them keep that difference as it is, since neither
writes nor spreads look at the order of the keys.

* `Node.PathsApart` - two paths of which neither begins with the other.
* `Node.agree_evalEntry`, `Node.agree_evalEntries` - entries keep the relation between fields.
* `Node.agree_evalEntry_comm` - the two pairs in either order.
* `independent_pairs_commute` - the result.
-/

namespace ConfigLang

/-- If what comes second always fails, so do both together. -/
theorem exists_bind_eq_error {ε α β : Type} {e : ε} {f : α → Except ε β} (hf : ∀ a, f a = .error e)
    (x : Except ε α) : ∃ e', (x >>= f) = .error e' := by
  cases x with
  | error e' => exact ⟨e', rfl⟩
  | ok a => exact ⟨e, hf a⟩

/-- Errors may be put in other words after each step or at the end. -/
theorem mapError_bind_mapError {ε ε' α β : Type} (f : ε → ε') (x : Except ε α) (g : α → Except ε β) :
    (x.mapError f >>= fun a => (g a).mapError f) = (x >>= g).mapError f := by
  cases x <;> rfl

namespace Node

variable {resolve : Resolver (Except EvalError)} {fields fields' : OrderedMap Value}

/-- A pair fails whatever the fields are, or it writes one value at one path. -/
theorem pair_writes_or_error (resolve : Resolver (Except EvalError)) (literal : Option Literal)
    (path node : Node) :
    (∃ e, ∀ fields, evalEntry resolve fields ⟨.pair, literal, [path, node]⟩ = .error e) ∨
      ∃ keys value, path.pathKeys = (.ok keys : Except EvalError (List String)) ∧
        ∀ fields, evalEntry resolve fields ⟨.pair, literal, [path, node]⟩ =
          (writeAt fields keys value).mapError .ofPathError := by
  simp only [evalEntry_pair]
  cases hkeys : (path.pathKeys : Except EvalError (List String)) with
  | error e => exact Or.inl ⟨e, fun fields => rfl⟩
  | ok keys =>
    cases hvalue : node.eval resolve with
    | error e => exact Or.inl ⟨e, fun fields => rfl⟩
    | ok value => exact Or.inr ⟨keys, value, rfl, fun fields => rfl⟩

/-! ### What stands behind the pairs -/

/-- An entry does not look at the order of keys. -/
theorem agree_evalEntry (h : SameFields fields fields') (entry : Node) :
    AgreeUpTo SameFields (evalEntry resolve fields entry) (evalEntry resolve fields' entry) := by
  rcases spread_or_pair_or_error resolve entry with hspread | ⟨literal, path, node, rfl⟩ | ⟨e, he⟩
  · rw [evalEntry_of_spread resolve fields hspread, evalEntry_of_spread resolve fields' hspread]
    cases entry.spreadFields resolve with
    | error e => exact .fail e e
    | ok spread => exact .give (h.merge spread)
  · rcases pair_writes_or_error resolve literal path node with ⟨e, he⟩ | ⟨keys, value, -, hwrite⟩
    · rw [he, he]
      exact .fail e e
    · rw [hwrite, hwrite]
      exact (h.writeAt keys value).mapError EvalError.ofPathError
  · rw [he, he]
    exact .fail e e

/-- Nor do all entries after one another. -/
theorem agree_evalEntries (h : SameFields fields fields') (entries : List Node) :
    AgreeUpTo SameFields (evalEntries resolve fields entries)
      (evalEntries resolve fields' entries) := by
  induction entries generalizing fields fields' with
  | nil =>
    rw [evalEntries, evalEntries]
    exact .give h
  | cons entry rest ih =>
    rw [evalEntries, evalEntries]
    exact (agree_evalEntry h entry).bind fun written written' hwritten => ih hwritten

/-! ### The pairs themselves -/

/-- The keys of two paths are such that neither list begins with the other. -/
def PathsApart (path path' : Node) : Prop :=
  ∀ keys keys', path.pathKeys = (.ok keys : Except EvalError (List String)) →
    path'.pathKeys = (.ok keys' : Except EvalError (List String)) → ¬ keys <+: keys' ∧ ¬ keys' <+: keys

variable {path path' : Node}

/-- Two pairs at paths apart from each other, in either order. -/
theorem agree_evalEntry_comm (hapart : PathsApart path path') (literal literal' : Option Literal)
    (node node' : Node) (fields : OrderedMap Value) :
    AgreeUpTo SameFields
      (evalEntry resolve fields ⟨.pair, literal, [path, node]⟩ >>= fun written =>
        evalEntry resolve written ⟨.pair, literal', [path', node']⟩)
      (evalEntry resolve fields ⟨.pair, literal', [path', node']⟩ >>= fun written =>
        evalEntry resolve written ⟨.pair, literal, [path, node]⟩) := by
  rcases pair_writes_or_error resolve literal path node with ⟨e, he⟩ | ⟨keys, value, hkeys, hwrite⟩
  · obtain ⟨e', he'⟩ := exists_bind_eq_error he
      (evalEntry resolve fields ⟨.pair, literal', [path', node']⟩)
    rw [he', he]
    exact .fail e e'
  · rcases pair_writes_or_error resolve literal' path' node' with
      ⟨e, he⟩ | ⟨keys', value', hkeys', hwrite'⟩
    · obtain ⟨e', he'⟩ := exists_bind_eq_error he
        (evalEntry resolve fields ⟨.pair, literal, [path, node]⟩)
      rw [he', he]
      exact .fail e' e
    · obtain ⟨hpath, hpath'⟩ := hapart keys keys' hkeys hkeys'
      simp only [hwrite, hwrite', mapError_bind_mapError]
      exact (agree_writeAt_comm hpath hpath' fields value value').mapError EvalError.ofPathError

/-- Two such pairs next to each other among other entries. -/
theorem agree_evalEntries_comm (hapart : PathsApart path path') (literal literal' : Option Literal)
    (node node' : Node) (before after : List Node) (fields : OrderedMap Value) :
    AgreeUpTo SameFields
      (evalEntries resolve fields (before ++ ⟨.pair, literal, [path, node]⟩ ::
        ⟨.pair, literal', [path', node']⟩ :: after))
      (evalEntries resolve fields (before ++ ⟨.pair, literal', [path', node']⟩ ::
        ⟨.pair, literal, [path, node]⟩ :: after)) := by
  rw [evalEntries_append, evalEntries_append]
  cases evalEntries resolve fields before with
  | error e => exact .fail e e
  | ok fields =>
    show AgreeUpTo SameFields (evalEntries resolve fields _) (evalEntries resolve fields _)
    simp only [evalEntries, ← bind_assoc]
    exact (agree_evalEntry_comm hapart literal literal' node node' fields).bind
      fun written written' hwritten => agree_evalEntries hwritten after

end Node

/-! ### The result -/

/-- Two pairs next to each other in an object whose paths are such that neither begins with the other may
change places: evaluation fails in both orders, or it succeeds in both and gives objects that are the same
but for the order of keys. -/
theorem independent_pairs_commute (s : Scope) (chain : List String)
    (literal literal₁ literal₂ : Option Literal) (before after : List Node)
    (path₁ node₁ path₂ node₂ : Node) (hapart : Node.PathsApart path₁ path₂) :
    AgreeUpTo Value.EqUpToOrder
      (Node.eval (s.resolve chain) ⟨.object, literal, before ++ ⟨.pair, literal₁, [path₁, node₁]⟩ ::
        ⟨.pair, literal₂, [path₂, node₂]⟩ :: after⟩)
      (Node.eval (s.resolve chain) ⟨.object, literal, before ++ ⟨.pair, literal₂, [path₂, node₂]⟩ ::
        ⟨.pair, literal₁, [path₁, node₁]⟩ :: after⟩) := by
  rw [Node.eval, Node.eval]
  exact (Node.agree_evalEntries_comm hapart literal₁ literal₂ node₁ node₂ before after []).bind
    fun fields fields' h => .give (Value.eqUpToOrder_object_iff.2 h)

/-- Both pairs add to an object that the first one makes, and the keys there stand in the order of the
pairs. -/
theorem pairs_below_one_key_in_both_orders :
    let pair (keys : List String) (node : Node) : Node :=
      .branch .pair [.branch .path (keys.map fun key => .leaf .pathSegment (.text key)), node]
    let one : Node := .leaf .integer (.integer 1)
    let s := Scope.mk .empty [("$more", .branch .object [pair ["x"] one])]
    let first := pair ["a", "b"] one
    let second := pair ["a", "c"] (.leaf .input (.text "$more"))
    let spread : Node := .leaf .spread (.text "$more")
    let more : Value := .object [("x", .integer 1)]
    let value : Value := .object [("a", .object [("b", .integer 1), ("c", more)]), ("x", .integer 1)]
    let value' : Value := .object [("a", .object [("c", more), ("b", .integer 1)]), ("x", .integer 1)]
    Node.eval (s.resolve []) (.branch .object [first, second, spread]) = .ok value ∧
      Node.eval (s.resolve []) (.branch .object [second, first, spread]) = .ok value' ∧
      value.EqUpToOrder value' := by
  intro pair one s first second spread more value value'
  have hvalue : Node.eval (s.resolve []) (.branch .object [first, second, spread]) = .ok value := by
    cbv
  have hvalue' : Node.eval (s.resolve []) (.branch .object [second, first, spread]) = .ok value' := by
    cbv
  have hapart : Node.PathsApart (.branch .path (["a", "b"].map fun key => .leaf .pathSegment (.text key)))
      (.branch .path (["a", "c"].map fun key => .leaf .pathSegment (.text key))) := by
    intro keys keys' hkeys hkeys'
    rw [← Except.ok.inj hkeys, ← Except.ok.inj hkeys']
    decide
  have hagree : AgreeUpTo Value.EqUpToOrder
      (Node.eval (s.resolve []) (.branch .object [first, second, spread]))
      (Node.eval (s.resolve []) (.branch .object [second, first, spread])) :=
    independent_pairs_commute s [] none none none [] [spread] _ _ _ _ hapart
  rw [hvalue, hvalue'] at hagree
  cases hagree with
  | give hrel => exact ⟨hvalue, hvalue', hrel⟩

end ConfigLang

import ConfigLang.Proofs.Eval.Simulation
import ConfigLang.Proofs.Grammar.Shape

/-!
# Replacing a value in a tree

A tree with one of its values replaced by another one is evaluated as before, if the two values are: the
parts around them are the same, and evaluation comes to them in the same order.

* `Node.Replaces` - one occurrence of a node is replaced.
* `Simulation.replaces` - a relation that evaluation keeps, and that holds of the two values, holds of the
  trees around them.
-/

namespace ConfigLang

namespace Node

/-- The second tree is the first one with one occurrence of a node, as the value of a pair or as an item of
an array, replaced by another node. -/
inductive Replaces (old new : Node) : Node → Node → Prop where
  | pairValue (path : Node) :
      Replaces old new (.branch .pair [path, old]) (.branch .pair [path, new])
  | item (before after : List Node) :
      Replaces old new (.branch .array (before ++ old :: after))
        (.branch .array (before ++ new :: after))
  | inside {n n' : Node} (kind : Kind) (before after : List Node) : Replaces old new n n' →
      Replaces old new (.branch kind (before ++ n :: after)) (.branch kind (before ++ n' :: after))

namespace Replaces

variable {old new n n' : Node} {kind : Kind} {children : List Node}

theorem kind_eq (h : Replaces old new n n') : n'.kind = n.kind := by
  cases h <;> rfl

theorem literal_eq_none (h : Replaces old new n n') : n.literal = none := by
  cases h <;> rfl

/-- One child of a branch is another one afterwards: it is the node that is replaced, or that node is
somewhere inside it. -/
theorem of_branch (h : Replaces old new (.branch kind children) n') :
    ∃ before m m' after, children = before ++ m :: after ∧
      n' = .branch kind (before ++ m' :: after) ∧
      (Replaces old new m m' ∨
        (m = old ∧ m' = new) ∧ (kind = .array ∨ kind = .pair ∧ before.length = 1)) := by
  generalize htree : branch kind children = tree at h
  cases h with
  | pairValue path =>
    obtain ⟨rfl, -, rfl⟩ := Node.mk.inj htree
    exact ⟨[path], old, new, [], rfl, rfl, Or.inr ⟨⟨rfl, rfl⟩, Or.inr ⟨rfl, rfl⟩⟩⟩
  | item before after =>
    obtain ⟨rfl, -, rfl⟩ := Node.mk.inj htree
    exact ⟨before, old, new, after, rfl, rfl, Or.inr ⟨⟨rfl, rfl⟩, Or.inl rfl⟩⟩
  | inside kind before after hinner =>
    obtain ⟨rfl, -, rfl⟩ := Node.mk.inj htree
    exact ⟨before, _, _, after, rfl, rfl, Or.inl hinner⟩

/-- In branches other than pairs and arrays a node is replaced inside a child. -/
theorem inside_of_branch (h : Replaces old new (.branch kind children) n') (harray : kind ≠ .array)
    (hpair : kind ≠ .pair) :
    ∃ before m m' after, children = before ++ m :: after ∧
      n' = .branch kind (before ++ m' :: after) ∧ Replaces old new m m' := by
  obtain ⟨before, m, m', after, hchildren, hn', hinner | ⟨-, hkind | ⟨hkind, -⟩⟩⟩ := h.of_branch
  · exact ⟨before, m, m', after, hchildren, hn', hinner⟩
  · exact absurd hkind harray
  · exact absurd hkind hpair

theorem not_leaf {literal : Literal} : ¬ Replaces old new (.leaf kind literal) n' := by
  intro h
  cases h.literal_eq_none

/-- The names in the node that is replaced are names in the tree around it. -/
theorem mem_references_of_old {name : String} (h : Replaces old new n n')
    (hname : name ∈ old.references) : name ∈ n.references := by
  induction h with
  | pairValue path => exact mem_references_of_child (c := old) (by simp [branch]) hname
  | item before after => exact mem_references_of_child (c := old) (by simp [branch]) hname
  | @inside m m' kind before after _ ih =>
    exact mem_references_of_child (c := m) (by simp [branch]) ih

end Replaces

/-- What holds of all names in a tree holds of those in a child. -/
theorem forall_references_of_child {P : String → Prop} {n c : Node}
    (h : ∀ name ∈ n.references, P name) (hc : c ∈ n.children) : ∀ name ∈ c.references, P name :=
  fun name hname => h name (mem_references_of_child hc hname)

section Eval

variable {m : Type → Type} [Monad m] [MonadExcept EvalError m]

theorem eval_input [LawfulMonad m] (resolve : Resolver m) (x : String) :
    (leaf .input (.text x)).eval resolve = resolve x := by
  show (pure x >>= fun name => resolve name) = resolve x
  rw [pure_bind]

end Eval

end Node

namespace Simulation

variable {m n : Type → Type} [Monad m] [MonadExcept EvalError m] [Monad n] [MonadExcept EvalError n]
variable {R : (α : Type) → m α → n α → Prop} {resolve : Resolver m} {resolve' : Resolver n}
variable {old new : Node}

/-- The relation holds the other way round as well. -/
theorem flip (h : Simulation R) : Simulation fun α (y : n α) (x : m α) => R α x y where
  pure a := h.pure a
  throw e he := h.throw e he
  bind hxy hfg := h.bind hxy hfg
  throw_bind e f g he := h.throw_bind e g f he

/-- What evaluation does with two trees of a production is related. Trees of the productions that no value
stands in are not compared. -/
def Corresponds (R : (α : Type) → m α → n α → Prop) (resolve : Resolver m) (resolve' : Resolver n) :
    Production → Node → Node → Prop
  | .object, tree, tree' => R (OrderedMap Value) (tree.evalFields resolve) (tree'.evalFields resolve')
  | .entry, tree, tree' => ∀ fields, R (OrderedMap Value) (Node.evalEntry resolve fields tree)
      (Node.evalEntry resolve' fields tree')
  | .item, tree, tree' => R (List Value) (tree.itemValues resolve) (tree'.itemValues resolve')
  | .value, tree, tree' => R Value (tree.eval resolve) (tree'.eval resolve')
  | .path, _, _ => False
  | .segment, _, _ => False
  | .part, _, _ => False
  | _, _, _ => True

/-- Two lists with one entry that differs are related entry by entry. -/
theorem forall₂_of_one {P : Node → Node → Prop} {before after : List Node} {tree tree' : Node}
    (hothers : ∀ c ∈ before ++ tree :: after, P c c) (h : P tree tree') :
    List.Forall₂ P (before ++ tree :: after) (before ++ tree' :: after) := by
  refine List.rel_append (List.forall₂_same.2 fun c hc => ?_)
    (.cons h (List.forall₂_same.2 fun c hc => ?_))
  · exact hothers c (by simp [hc])
  · exact hothers c (by simp [hc])

variable [LawfulMonad m] [LawfulMonad n]

/-- Evaluation keeps the relation around two values for which it holds. -/
theorem replaces (h : Simulation R) (hold : old.kind ≠ .spread) (hnew : new.kind ≠ .spread)
    (heval : R Value (old.eval resolve) (new.eval resolve')) {production : Production}
    {tree tree' : Node} (hshaped : Shaped production tree) (hreplaces : Node.Replaces old new tree tree')
    (hres : ∀ name ∈ tree.references, R Value (resolve name) (resolve' name)) :
    Corresponds R resolve resolve' production tree tree' := by
  induction hshaped generalizing tree' with
  | @object entries _ ih =>
    obtain ⟨before, e, e', after, rfl, rfl, hinner⟩ :=
      hreplaces.inside_of_branch (by decide) (by decide)
    have he : e ∈ before ++ e :: after := by simp
    have hentry := ih e he hinner (Node.forall_references_of_child hres he)
    show R _ (Node.evalFields resolve _) (Node.evalFields resolve' _)
    rw [Node.evalFields_branch, Node.evalFields_branch]
    refine h.evalEntries (forall₂_of_one (fun c hc => ?_) hentry) []
    exact (h.related c (Node.forall_references_of_child hres hc)).evalEntry
  | @pair path value _ _ ihpath ihvalue =>
    have hpath := Node.forall_references_of_child (c := path) hres (by simp [Node.branch])
    have hvalue := Node.forall_references_of_child (c := value) hres (by simp [Node.branch])
    obtain ⟨before, p, p', after, hchildren, rfl, hcases⟩ := hreplaces.of_branch
    rcases before with _ | ⟨first, _ | ⟨second, before⟩⟩
    · -- Nothing is replaced in a path.
      obtain ⟨rfl, rfl⟩ := List.cons.inj hchildren
      rcases hcases with hinner | ⟨-, hkind | ⟨-, hlength⟩⟩
      · exact (ihpath hinner hpath).elim
      · cases hkind
      · cases hlength
    · obtain ⟨rfl, hrest⟩ := List.cons.inj hchildren
      obtain ⟨rfl, rfl⟩ := List.cons.inj hrest
      have hp : R Value (value.eval resolve) (p'.eval resolve') := by
        rcases hcases with hinner | ⟨⟨rfl, rfl⟩, -⟩
        · exact ihvalue hinner hvalue
        · exact heval
      exact h.evalEntry_pair none path hp
    · cases before <;> cases hchildren
  | @path segments _ _ ih =>
    obtain ⟨before, s, s', after, rfl, -, hinner⟩ :=
      hreplaces.inside_of_branch (by decide) (by decide)
    have hs : s ∈ before ++ s :: after := by simp
    exact ih s hs hinner (Node.forall_references_of_child hres hs)
  | @itemValue value hvalue ih =>
    refine h.itemValues_of_eval hvalue.kind_ne_spread ?_ (ih hreplaces hres)
    rw [hreplaces.kind_eq]
    exact hvalue.kind_ne_spread
  | @objectValue object hobject ih =>
    have hkind := hobject.kind_eq_object
    show R Value (object.eval resolve) (tree'.eval resolve')
    rw [Node.eval_of_object resolve hkind,
      Node.eval_of_object resolve' (hreplaces.kind_eq.trans hkind)]
    exact h.bind (ih hreplaces hres) fun fields => h.pure _
  | @array items _ ih =>
    obtain ⟨before, i, i', after, rfl, rfl, hcases⟩ := hreplaces.of_branch
    have hi : i ∈ before ++ i :: after := by simp
    have hitem : R (List Value) (i.itemValues resolve) (i'.itemValues resolve') := by
      rcases hcases with hinner | ⟨⟨rfl, rfl⟩, -⟩
      · exact ih i hi hinner (Node.forall_references_of_child hres hi)
      · exact h.itemValues_of_eval hold hnew heval
    show R Value (Node.eval resolve _) (Node.eval resolve' _)
    rw [Node.branch, Node.branch, Node.eval, Node.eval]
    refine h.bind (h.evalItems (forall₂_of_one (fun c hc => ?_) hitem)) fun values => h.pure _
    exact (h.related c (Node.forall_references_of_child hres hc)).itemValues
  | @string parts _ ih =>
    obtain ⟨before, p, p', after, rfl, -, hinner⟩ :=
      hreplaces.inside_of_branch (by decide) (by decide)
    have hp : p ∈ before ++ p :: after := by simp
    exact (ih p hp hinner (Node.forall_references_of_child hres hp)).elim
  | null =>
    obtain ⟨before, m, m', after, hchildren, -, -⟩ := hreplaces.of_branch
    cases before <;> cases hchildren
  | config | configWithInputs | inputBlock | assignment => trivial
  | _ => exact absurd hreplaces Node.Replaces.not_leaf

end Simulation

end ConfigLang

import ConfigLang.Eval.Node
import Mathlib.Data.List.Forall2

/-!
# Evaluation as a function of its resolver

`Node.eval` runs in any monad with the evaluation errors, and it only ever answers, fails, goes on
with an answer, and asks the resolver. So a relation between two monads that is kept by the first
three holds of all evaluations as soon as it holds of what the two resolvers answer, and of those only
for the names that the tree refers to.

* `Node.references` - the names that a tree refers to.
* `EvalError.isLocal` - the errors that evaluation raises itself; the others come from a resolver.
* `Simulation` - a relation between computations that answering, failing and going on keep.
* `Simulation.eval`, `Simulation.evalFields` - evaluation keeps it.
-/

namespace ConfigLang

/-! ### The names in a tree -/

namespace Node

/-- The name that a node itself refers to. -/
def reference : Kind → Option Literal → List String
  | .input, some (.text name) => [name]
  | .spread, some (.text name) => [name]
  | _, _ => []

mutual

/-- The names that a tree refers to. -/
def references : Node → List String
  | ⟨kind, literal, children⟩ => reference kind literal ++ referencesOf children
termination_by structural n => n

/-- The names that some trees refer to. -/
def referencesOf : List Node → List String
  | [] => []
  | n :: others => n.references ++ referencesOf others
termination_by structural ns => ns

end

theorem mem_referencesOf {name : String} {n : Node} {ns : List Node} (hn : n ∈ ns)
    (h : name ∈ n.references) : name ∈ referencesOf ns := by
  induction ns with
  | nil => exact absurd hn List.not_mem_nil
  | cons first others ih =>
    rw [referencesOf, List.mem_append]
    rcases List.mem_cons.1 hn with rfl | hn
    · exact Or.inl h
    · exact Or.inr (ih hn)

theorem mem_references_of_child {name : String} {n c : Node} (hc : c ∈ n.children)
    (h : name ∈ c.references) : name ∈ n.references := by
  obtain ⟨kind, literal, children⟩ := n
  rw [references, List.mem_append]
  exact Or.inr (mem_referencesOf hc h)

/-- An input or a spread refers to the name that it carries. -/
theorem mem_references_of_text {name : String} {n : Node} (h : n.text? = some name)
    (hkind : n.kind = .input ∨ n.kind = .spread) : name ∈ n.references := by
  obtain ⟨kind, literal, children⟩ := n
  rw [references, List.mem_append]
  left
  simp only [text?] at h
  split at h
  · obtain rfl := Option.some.inj h
    rcases hkind with rfl | rfl <;> exact List.mem_singleton_self _
  · exact absurd h (by simp)

end Node

/-- A computation in two steps has an answer only if both have one. -/
theorem exists_of_bind_eq_ok {ε α β : Type} {x : Except ε α} {f : α → Except ε β} {b : β}
    (h : x >>= f = .ok b) : ∃ a, x = .ok a ∧ f a = .ok b := by
  cases x with
  | ok a => exact ⟨a, rfl, h⟩
  | error e => cases h

/-! ### Items -/

section Items

variable {m : Type → Type} [Monad m] [MonadExcept EvalError m]

/-- The items that a node brings into an array. -/
def Node.itemValues (resolve : Resolver m) (item : Node) : m (List Value) :=
  if item.kind = .spread then item.spreadItems resolve else List.singleton <$> item.eval resolve

theorem Node.evalItems_cons (resolve : Resolver m) (item : Node) (rest : List Node) :
    evalItems resolve (item :: rest) = (do
      let values ← item.itemValues resolve
      let others ← evalItems resolve rest
      pure (values ++ others)) := by
  rw [evalItems]
  rfl

end Items

/-! ### Relations that evaluation keeps -/

/-- The errors that are not about what a name stands for. -/
def EvalError.isLocal : EvalError → Bool
  | .missingInput _ => false
  | .cyclicInput _ => false
  | _ => true

theorem EvalError.isLocal_ofPathError (e : PathError) : (EvalError.ofPathError e).isLocal = true := by
  cases e <;> rfl

variable {m n : Type → Type} [Monad m] [MonadExcept EvalError m] [Monad n] [MonadExcept EvalError n]

/-- A relation between computations that is kept by all that evaluation does with them. -/
structure Simulation (R : (α : Type) → m α → n α → Prop) : Prop where
  pure : ∀ {α : Type} (a : α), R α (Pure.pure a) (Pure.pure a)
  throw : ∀ {α : Type} (e : EvalError), e.isLocal = true →
    R α (MonadExcept.throw e) (MonadExcept.throw e)
  bind : ∀ {α β : Type} {x : m α} {y : n α} {f : α → m β} {g : α → n β},
    R α x y → (∀ a, R β (f a) (g a)) → R β (x >>= f) (y >>= g)
  /-- After an error nothing follows. -/
  throw_bind : ∀ {α β : Type} (e : EvalError) (f : α → m β) (g : α → n β), e.isLocal = true →
    R β (MonadExcept.throw e >>= f) (MonadExcept.throw e >>= g)

namespace Simulation

variable {R : (α : Type) → m α → n α → Prop} {resolve : Resolver m} {resolve' : Resolver n}

theorem piece (h : Simulation R) {part : Node}
    (hres : ∀ name ∈ part.references, R Value (resolve name) (resolve' name)) :
    R Piece (part.piece resolve) (part.piece resolve') := by
  unfold Node.piece
  split
  · exact h.pure _
  · exact h.pure _
  next name hkind hliteral =>
    have hname : name ∈ part.references :=
      Node.mem_references_of_text (by rw [Node.text?, hliteral]) (Or.inl hkind)
    refine h.bind (hres name hname) fun value => ?_
    split
    · exact h.pure _
    · exact h.throw _ rfl
  · exact h.throw _ rfl

/-- Arrays whose items bring in related values one by one are related. -/
theorem evalItems (h : Simulation R) {items items' : List Node}
    (hitems : List.Forall₂ (fun i i' => R (List Value) (i.itemValues resolve) (i'.itemValues resolve'))
      items items') :
    R (List Value) (Node.evalItems resolve items) (Node.evalItems resolve' items') := by
  induction hitems with
  | nil =>
    rw [Node.evalItems, Node.evalItems]
    exact h.pure []
  | cons hitem _ ih =>
    rw [Node.evalItems_cons, Node.evalItems_cons]
    exact h.bind hitem fun values => h.bind ih fun others => h.pure (values ++ others)

/-- Objects whose entries have related effects one by one are related. -/
theorem evalEntries (h : Simulation R) {entries entries' : List Node}
    (hentries : List.Forall₂ (fun e e' => ∀ fields, R (OrderedMap Value)
      (Node.evalEntry resolve fields e) (Node.evalEntry resolve' fields e')) entries entries')
    (fields : OrderedMap Value) :
    R (OrderedMap Value) (Node.evalEntries resolve fields entries)
      (Node.evalEntries resolve' fields entries') := by
  induction hentries generalizing fields with
  | nil =>
    rw [Node.evalEntries, Node.evalEntries]
    exact h.pure fields
  | cons hentry _ ih =>
    rw [Node.evalEntries, Node.evalEntries]
    exact h.bind (hentry fields) ih

variable [LawfulMonad m] [LawfulMonad n]

theorem map (h : Simulation R) {α β : Type} (f : α → β) {x : m α} {y : n α} (hxy : R α x y) :
    R β (f <$> x) (f <$> y) := by
  rw [map_eq_pure_bind, map_eq_pure_bind]
  exact h.bind hxy fun a => h.pure (f a)

theorem mapM (h : Simulation R) {α β : Type} {f : α → m β} {g : α → n β} {items : List α}
    (hf : ∀ a ∈ items, R β (f a) (g a)) : R (List β) (items.mapM f) (items.mapM g) := by
  induction items with
  | nil =>
    rw [List.mapM_nil, List.mapM_nil]
    exact h.pure []
  | cons a items ih =>
    rw [List.mapM_cons, List.mapM_cons]
    refine h.bind (hf a List.mem_cons_self) fun b => ?_
    exact h.bind (ih fun c hc => hf c (List.mem_cons_of_mem a hc)) fun bs => h.pure (b :: bs)

/-- What goes on with the name of an input or a spread is asked for no other name. -/
theorem bind_name (h : Simulation R) {α : Type} {node : Node}
    (hkind : node.kind = .input ∨ node.kind = .spread) {f : String → m α} {g : String → n α}
    (hfg : ∀ name ∈ node.references, R α (f name) (g name)) :
    R α (node.name >>= f) (node.name >>= g) := by
  cases htext : node.text? with
  | none =>
    simp only [Node.name, htext]
    exact h.throw_bind _ f g rfl
  | some name =>
    simp only [Node.name, htext, pure_bind]
    exact hfg name (Node.mem_references_of_text htext hkind)

theorem pathKeys (h : Simulation R) (path : Node) :
    R (List String) path.pathKeys path.pathKeys := by
  unfold Node.pathKeys
  split
  · refine h.mapM fun segment _ => ?_
    unfold Node.name
    split
    · exact h.pure _
    · exact h.throw _ rfl
  · exact h.throw _ rfl

theorem spreadItems (h : Simulation R) {spread : Node} (hkind : spread.kind = .spread)
    (hres : ∀ name ∈ spread.references, R Value (resolve name) (resolve' name)) :
    R (List Value) (spread.spreadItems resolve) (spread.spreadItems resolve') := by
  refine h.bind_name (Or.inr hkind) fun name hname => ?_
  refine h.bind (hres name hname) fun value => ?_
  split
  · exact h.pure _
  · exact h.throw _ rfl

theorem spreadFields (h : Simulation R) {spread : Node} (hkind : spread.kind = .spread)
    (hres : ∀ name ∈ spread.references, R Value (resolve name) (resolve' name)) :
    R (OrderedMap Value) (spread.spreadFields resolve) (spread.spreadFields resolve') := by
  refine h.bind_name (Or.inr hkind) fun name hname => ?_
  refine h.bind (hres name hname) fun value => ?_
  split
  · exact h.pure _
  · exact h.throw _ rfl

/-! ### Trees -/

/-- What two nodes bring into an array is related if their values are and none of them is a spread. -/
theorem itemValues_of_eval (h : Simulation R) {node node' : Node} (hkind : node.kind ≠ .spread)
    (hkind' : node'.kind ≠ .spread)
    (heval : R Value (node.eval resolve) (node'.eval resolve')) :
    R (List Value) (node.itemValues resolve) (node'.itemValues resolve') := by
  rw [Node.itemValues, Node.itemValues, if_neg hkind, if_neg hkind']
  exact h.map List.singleton heval

/-- The effects of two pairs at the same path are related if their values are. -/
theorem evalEntry_pair (h : Simulation R) (literal : Option Literal) (path : Node) {node node' : Node}
    (heval : R Value (node.eval resolve) (node'.eval resolve')) (fields : OrderedMap Value) :
    R (OrderedMap Value) (Node.evalEntry resolve fields ⟨.pair, literal, [path, node]⟩)
      (Node.evalEntry resolve' fields ⟨.pair, literal, [path, node']⟩) := by
  rw [Node.evalEntry, Node.evalEntry]
  refine h.bind (h.pathKeys path) fun keys => h.bind heval fun value => ?_
  split
  · exact h.pure _
  · exact h.throw _ (EvalError.isLocal_ofPathError _)

/-- All that evaluation does with a node is related: its value, what it brings into an array, and its
effect as an entry. -/
structure Related (R : (α : Type) → m α → n α → Prop) (resolve : Resolver m) (resolve' : Resolver n)
    (node : Node) : Prop where
  eval : R Value (node.eval resolve) (node.eval resolve')
  itemValues : R (List Value) (node.itemValues resolve) (node.itemValues resolve')
  evalEntry : ∀ fields, R (OrderedMap Value) (Node.evalEntry resolve fields node)
    (Node.evalEntry resolve' fields node)

theorem evalEntry (h : Simulation R) {kind : Node.Kind} {literal : Option Literal}
    {children : List Node}
    (hchildren : ∀ c ∈ children, R Value (c.eval resolve) (c.eval resolve'))
    (hres : ∀ name ∈ (⟨kind, literal, children⟩ : Node).references,
      R Value (resolve name) (resolve' name)) (fields : OrderedMap Value) :
    R (OrderedMap Value) (Node.evalEntry resolve fields ⟨kind, literal, children⟩)
      (Node.evalEntry resolve' fields ⟨kind, literal, children⟩) := by
  unfold Node.evalEntry
  split
  next heq =>
    rw [heq] at hres
    exact h.bind (h.spreadFields rfl hres) fun spread => h.pure _
  next path node heq =>
    obtain ⟨rfl, rfl, rfl⟩ := Node.mk.inj heq
    have hpair := h.evalEntry_pair literal path (hchildren node (by simp)) fields
    rwa [Node.evalEntry, Node.evalEntry] at hpair
  · exact h.throw _ rfl
  · exact h.throw _ rfl

/-- Evaluation keeps the relation on all trees for whose names the resolvers are related. -/
theorem related (h : Simulation R) (node : Node)
    (hres : ∀ name ∈ node.references, R Value (resolve name) (resolve' name)) :
    Related R resolve resolve' node := by
  induction node using Node.induct with
  | node kind literal children ih =>
    have hchild : ∀ c ∈ children, ∀ name ∈ c.references, R Value (resolve name) (resolve' name) :=
      fun c hc name hname => hres name (Node.mem_references_of_child hc hname)
    have hchildren : ∀ c ∈ children, Related R resolve resolve' c :=
      fun c hc => ih c hc (hchild c hc)
    have heval : R Value (Node.eval resolve ⟨kind, literal, children⟩)
        (Node.eval resolve' ⟨kind, literal, children⟩) := by
      unfold Node.eval
      split
      next heq =>
        obtain ⟨-, -, rfl⟩ := Node.mk.inj heq
        refine h.bind (h.evalEntries (List.forall₂_same.2 fun c hc => ?_) []) fun fields => h.pure _
        exact (hchildren c hc).evalEntry
      next heq =>
        obtain ⟨-, -, rfl⟩ := Node.mk.inj heq
        refine h.bind (h.evalItems (List.forall₂_same.2 fun c hc => ?_)) fun values => h.pure _
        exact (hchildren c hc).itemValues
      next heq =>
        obtain ⟨-, -, rfl⟩ := Node.mk.inj heq
        exact h.bind (h.mapM fun part hpart => h.piece (hchild part hpart)) fun pieces => h.pure _
      next heq =>
        rw [heq] at hres
        exact h.bind_name (Or.inl rfl) hres
      all_goals first | exact h.pure _ | exact h.throw _ rfl
    refine ⟨heval, ?_, h.evalEntry (fun c hc => (hchildren c hc).eval) hres⟩
    by_cases hkind : kind = .spread
    · subst hkind
      exact h.spreadItems rfl hres
    · exact h.itemValues_of_eval hkind hkind heval

/-- Evaluation keeps the relation if the resolvers are related for the names of the tree. -/
theorem eval (h : Simulation R) (node : Node)
    (hres : ∀ name ∈ node.references, R Value (resolve name) (resolve' name)) :
    R Value (node.eval resolve) (node.eval resolve') :=
  (h.related node hres).eval

/-- Evaluating an object node keeps the relation under the same condition. -/
theorem evalFields (h : Simulation R) (node : Node)
    (hres : ∀ name ∈ node.references, R Value (resolve name) (resolve' name)) :
    R (OrderedMap Value) (node.evalFields resolve) (node.evalFields resolve') := by
  unfold Node.evalFields
  split
  · refine h.evalEntries (List.forall₂_same.2 fun entry hentry => ?_) []
    have hentryNames := fun name hname => hres name (Node.mem_references_of_child hentry hname)
    exact (h.related entry hentryNames).evalEntry
  · exact h.throw _ rfl

end Simulation

end ConfigLang

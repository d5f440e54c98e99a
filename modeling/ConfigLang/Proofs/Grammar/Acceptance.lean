import ConfigLang.Proofs.Grammar.Shape
import ConfigLang.Proofs.Grammar.Walk

/-!
# The accepted lists of tokens

A list of tokens has a syntax tree if and only if it is what some well-shaped tree is written with, and
then that tree is the only one it has.

* `Place.written`, `Place.Sound` - the tokens in front of a place, read off the parts gathered there,
  and the shapes of these parts.
* `Place.sound_and_written_of_next?` - what one token does to both.
* `leadsThrough_of_shaped` - where the tokens of a well-shaped tree lead.
* `treeOf_eq_ok_iff_shaped_and_tokens` - the result.
-/

namespace ConfigLang.Grammar

/-! ### The tokens behind a place -/

/-- The tokens of some trees one after the other. -/
def written (ns : Array Node) : List Token := ns.toList.flatMap Node.tokens

@[simp] theorem written_empty : written #[] = [] := rfl

@[simp] theorem written_push (ns : Array Node) (n : Node) :
    written (ns.push n) = written ns ++ n.tokens := by
  simp [written]

/-- The tokens in front of a value. -/
def Pending.written : Pending → List Token
  | root none => []
  | root (some inputs) => .symbol .letWord :: inputs.tokens
  | assignment before name =>
    [.symbol .letWord, .symbol .braceOpen] ++ Grammar.written before ++
      [.input name, .symbol .equals]
  | pair before path object =>
    object.written ++ .symbol .braceOpen :: Grammar.written before ++
      (Node.branch .path path.toList).tokens ++ [.symbol .equals]
  | item before array => array.written ++ .symbol .bracketOpen :: Grammar.written before

/-- The tokens in front of a place. -/
def Place.written : Place → List Token
  | start => []
  | blockStart => [.symbol .letWord]
  | assignments before => [.symbol .letWord, .symbol .braceOpen] ++ Grammar.written before
  | inputName before name =>
    [.symbol .letWord, .symbol .braceOpen] ++ Grammar.written before ++ [.input name]
  | blockEnd given =>
    [.symbol .letWord, .symbol .braceOpen] ++ Grammar.written given ++ [.symbol .braceClose]
  | rootStart inputs => .symbol .letWord :: inputs.tokens
  | value pending => pending.written
  | entries before object => object.written ++ .symbol .braceOpen :: Grammar.written before
  | entrySpread before object =>
    object.written ++ .symbol .braceOpen :: Grammar.written before ++ [.symbol .spread]
  | segment before path object =>
    object.written ++ .symbol .braceOpen :: Grammar.written before ++
      (Node.branch .path path.toList).tokens ++ [.symbol .dot]
  | pathEnd before path object =>
    object.written ++ .symbol .braceOpen :: Grammar.written before ++
      (Node.branch .path path.toList).tokens
  | items before array => array.written ++ .symbol .bracketOpen :: Grammar.written before
  | itemSpread before array =>
    array.written ++ .symbol .bracketOpen :: Grammar.written before ++ [.symbol .spread]
  | parts before string => string.written ++ .symbol .doubleQuote :: Grammar.written before
  | done config => config.tokens

/-! ### The shapes of the parts at a place -/

/-- The trees that may become the value: an object at the root of a document, any value elsewhere. -/
def Pending.production : Pending → Production
  | root _ => .object
  | _ => .value

/-- The parts gathered around a value have their shapes. -/
def Pending.Sound : Pending → Prop
  | root none => True
  | root (some inputs) => Shaped .inputBlock inputs
  | assignment before _ => ∀ a ∈ before, Shaped .assignment a
  | pair before path object =>
    (∀ e ∈ before, Shaped .entry e) ∧ Shaped .path (.branch .path path.toList) ∧ object.Sound
  | item before array =>
    (∀ i ∈ before, Shaped .item i) ∧ array.Sound ∧ array.production = .value

/-- The parts gathered at a place have their shapes. -/
def Place.Sound : Place → Prop
  | start => True
  | blockStart => True
  | assignments before => ∀ a ∈ before, Shaped .assignment a
  | inputName before _ => ∀ a ∈ before, Shaped .assignment a
  | blockEnd given => ∀ a ∈ given, Shaped .assignment a
  | rootStart inputs => Shaped .inputBlock inputs
  | value pending => pending.Sound ∧ pending.production = .value
  | entries before object => (∀ e ∈ before, Shaped .entry e) ∧ object.Sound
  | entrySpread before object => (∀ e ∈ before, Shaped .entry e) ∧ object.Sound
  | segment before path object =>
    (∀ e ∈ before, Shaped .entry e) ∧ Shaped .path (.branch .path path.toList) ∧ object.Sound
  | pathEnd before path object =>
    (∀ e ∈ before, Shaped .entry e) ∧ Shaped .path (.branch .path path.toList) ∧ object.Sound
  | items before array =>
    (∀ i ∈ before, Shaped .item i) ∧ array.Sound ∧ array.production = .value
  | itemSpread before array =>
    (∀ i ∈ before, Shaped .item i) ∧ array.Sound ∧ array.production = .value
  | parts before string =>
    (∀ p ∈ before, Shaped .part p) ∧ string.Sound ∧ string.production = .value
  | done config => Shaped .config config

/-! ### What one token does -/

theorem forall_mem_push {P : Node → Prop} {ns : Array Node} {n : Node} (hns : ∀ m ∈ ns, P m)
    (hn : P n) : ∀ m ∈ ns.push n, P m := by
  intro m hm
  rcases Array.mem_push.1 hm with hm | rfl
  · exact hns m hm
  · exact hn

/-- A finished value of the right production keeps the parts in shape and adds its own tokens. -/
theorem Pending.sound_and_written_deliver {pending : Pending} {v : Node} (h : pending.Sound)
    (hv : Shaped pending.production v) :
    (pending.deliver v).Sound ∧ (pending.deliver v).written = pending.written ++ v.tokens := by
  cases pending with
  | root inputs =>
    cases inputs with
    | none =>
      refine ⟨.config hv, ?_⟩
      simp [Pending.deliver, Place.written, Pending.written, Node.tokens_branch, Node.branchTokens]
    | some block =>
      refine ⟨.configWithInputs h hv, ?_⟩
      simp [Pending.deliver, Place.written, Pending.written, Node.tokens_branch, Node.branchTokens]
  | assignment before name =>
    refine ⟨forall_mem_push h (.assignment name hv), ?_⟩
    simp [Pending.deliver, Place.written, Pending.written, Node.tokens_branch, Node.branchTokens,
      Node.tokens_leaf, Node.leafTokens]
  | pair before path object =>
    obtain ⟨hbefore, hpath, hobject⟩ := h
    refine ⟨⟨forall_mem_push hbefore (.pair hpath hv), hobject⟩, ?_⟩
    simp only [Pending.deliver, Place.written, Pending.written, written_push, Node.tokens_branch,
      Node.branchTokens, List.map]
    simp
  | item before array =>
    obtain ⟨hbefore, harray, hproduction⟩ := h
    refine ⟨⟨forall_mem_push hbefore (.itemValue hv), harray, hproduction⟩, ?_⟩
    simp [Pending.deliver, Place.written, Pending.written]

/-- A leaf that is a value of its own keeps the parts in shape and adds its token. -/
theorem Pending.sound_and_written_deliver_leaf {pending : Pending} {v : Node} {t : Token}
    (h : pending.Sound ∧ pending.production = .value) (hv : Shaped .value v)
    (htokens : v.tokens = [t]) :
    (pending.deliver v).Sound ∧ (pending.deliver v).written = pending.written ++ [t] := by
  rw [← htokens]
  exact pending.sound_and_written_deliver h.1 (h.2 ▸ hv)

/-- A finished object does so wherever it stands. -/
theorem Pending.sound_and_written_deliver_object {pending : Pending} {v : Node} (h : pending.Sound)
    (hv : Shaped .object v) :
    (pending.deliver v).Sound ∧ (pending.deliver v).written = pending.written ++ v.tokens := by
  refine pending.sound_and_written_deliver h ?_
  cases pending with
  | root inputs => exact hv
  | _ => exact .objectValue hv

theorem sound_and_written_of_beginValue {pending : Pending} {t : Token} {q : Place}
    (h : pending.Sound ∧ pending.production = .value) (hq : beginValue pending t = some q) :
    q.Sound ∧ q.written = pending.written ++ [t] := by
  unfold beginValue at hq
  split at hq
  · obtain rfl := Option.some.inj hq
    exact ⟨⟨by simp, h.1⟩, by simp [Place.written]⟩
  · obtain rfl := Option.some.inj hq
    exact ⟨⟨by simp, h⟩, by simp [Place.written]⟩
  · obtain rfl := Option.some.inj hq
    exact ⟨⟨by simp, h⟩, by simp [Place.written]⟩
  · obtain rfl := Option.some.inj hq
    exact Pending.sound_and_written_deliver_leaf h (.boolean true) (Node.tokens_leaf _ _)
  · obtain rfl := Option.some.inj hq
    exact Pending.sound_and_written_deliver_leaf h (.boolean false) (Node.tokens_leaf _ _)
  · obtain rfl := Option.some.inj hq
    exact Pending.sound_and_written_deliver_leaf h .null (Node.tokens_branch _ _)
  · obtain rfl := Option.some.inj hq
    exact Pending.sound_and_written_deliver_leaf h (.float _) (Node.tokens_leaf _ _)
  · obtain rfl := Option.some.inj hq
    exact Pending.sound_and_written_deliver_leaf h (.integer _) (Node.tokens_leaf _ _)
  · obtain rfl := Option.some.inj hq
    exact Pending.sound_and_written_deliver_leaf h (.input _) (Node.tokens_leaf _ _)
  · cases hq

theorem sound_and_written_of_nextAssignment {before : Array Node} {t : Token} {q : Place}
    (h : (Place.assignments before).Sound) (hq : nextAssignment before t = some q) :
    q.Sound ∧ q.written = (Place.assignments before).written ++ [t] := by
  unfold nextAssignment at hq
  split at hq
  · obtain rfl := Option.some.inj hq
    exact ⟨h, rfl⟩
  · obtain rfl := Option.some.inj hq
    exact ⟨h, rfl⟩
  · cases hq

theorem sound_and_written_of_nextEntry {before : Array Node} {object : Pending} {t : Token}
    {q : Place} (h : (Place.entries before object).Sound)
    (hq : nextEntry before object t = some q) :
    q.Sound ∧ q.written = (Place.entries before object).written ++ [t] := by
  unfold nextEntry at hq
  split at hq
  · obtain rfl := Option.some.inj hq
    exact ⟨h, rfl⟩
  · obtain rfl := Option.some.inj hq
    refine ⟨⟨h.1, .path (List.cons_ne_nil _ _) ?_, h.2⟩, ?_⟩
    · intro s hs
      rw [List.mem_singleton.1 hs]
      exact .segment _
    · simp [Place.written, Node.tokens_branch, Node.tokens_leaf, Node.branchTokens, Node.leafTokens]
  · obtain rfl := Option.some.inj hq
    have hobject : Shaped .object (.branch .object before.toList) :=
      .object fun e he => h.1 e (Array.mem_toList_iff.1 he)
    obtain ⟨hsound, hwritten⟩ := Pending.sound_and_written_deliver_object h.2 hobject
    refine ⟨hsound, ?_⟩
    rw [hwritten, Node.tokens_branch, Node.branchTokens]
    simp [Place.written, written, List.flatMap_def]
  · cases hq

theorem sound_and_written_of_nextInPath {before path : Array Node} {object : Pending} {t : Token}
    {q : Place} (h : (Place.pathEnd before path object).Sound)
    (hq : nextInPath before path object t = some q) :
    q.Sound ∧ q.written = (Place.pathEnd before path object).written ++ [t] := by
  unfold nextInPath at hq
  split at hq
  · obtain rfl := Option.some.inj hq
    exact ⟨h, rfl⟩
  · obtain rfl := Option.some.inj hq
    exact ⟨⟨h, rfl⟩, rfl⟩
  · cases hq

theorem sound_and_written_of_nextItem {before : Array Node} {array : Pending} {t : Token}
    {q : Place} (h : (Place.items before array).Sound) (hq : nextItem before array t = some q) :
    q.Sound ∧ q.written = (Place.items before array).written ++ [t] := by
  unfold nextItem at hq
  split at hq
  · obtain rfl := Option.some.inj hq
    exact ⟨h, rfl⟩
  · obtain rfl := Option.some.inj hq
    have harray : Shaped .value (.branch .array before.toList) :=
      .array fun i hi => h.1 i (Array.mem_toList_iff.1 hi)
    obtain ⟨hsound, hwritten⟩ := array.sound_and_written_deliver h.2.1 (h.2.2 ▸ harray)
    refine ⟨hsound, ?_⟩
    rw [hwritten, Node.tokens_branch, Node.branchTokens]
    simp [Place.written, written, List.flatMap_def]
  · have hitem : (Pending.item before array).Sound ∧ (Pending.item before array).production = .value :=
      ⟨h, rfl⟩
    exact sound_and_written_of_beginValue hitem hq

theorem sound_and_written_of_nextPart {before : Array Node} {string : Pending} {t : Token}
    {q : Place} (h : (Place.parts before string).Sound) (hq : nextPart before string t = some q) :
    q.Sound ∧ q.written = (Place.parts before string).written ++ [t] := by
  obtain ⟨hbefore, hstring, hproduction⟩ := h
  rcases cases_of_nextPart hq with
    ⟨text, rfl, rfl⟩ | ⟨c, rfl, rfl⟩ | ⟨name, rfl, rfl⟩ | ⟨rfl, rfl⟩
  · refine ⟨⟨forall_mem_push hbefore (.charSequence _), hstring, hproduction⟩, ?_⟩
    simp [Place.written, Node.tokens_leaf, Node.leafTokens]
  · refine ⟨⟨forall_mem_push hbefore (.charEscape _), hstring, hproduction⟩, ?_⟩
    simp [Place.written, Node.tokens_leaf, Node.leafTokens]
  · refine ⟨⟨forall_mem_push hbefore (.interpolation _), hstring, hproduction⟩, ?_⟩
    simp [Place.written, Node.tokens_leaf, Node.leafTokens]
  · have hvalue : Shaped .value (.branch .string before.toList) :=
      .string fun p hp => hbefore p (Array.mem_toList_iff.1 hp)
    obtain ⟨hsound, hwritten⟩ := string.sound_and_written_deliver hstring (hproduction ▸ hvalue)
    refine ⟨hsound, ?_⟩
    rw [hwritten, Node.tokens_branch, Node.branchTokens]
    simp [Place.written, written, List.flatMap_def]

theorem sound_push_segment {path : Array Node}
    (h : Shaped .path (.branch .path path.toList)) (key : String) :
    Shaped .path (.branch .path (path.push (.leaf .pathSegment (.text key))).toList) := by
  obtain ⟨-, hsegments⟩ := Shaped.path_iff.1 h
  rw [Array.toList_push]
  refine .path (by simp) fun s hs => ?_
  rcases List.mem_append.1 hs with hs | hs
  · exact hsegments s hs
  · rw [List.mem_singleton.1 hs]
    exact .segment key

/-- One token keeps the parts in shape and is added at the end. -/
theorem Place.sound_and_written_of_next? {p q : Place} {t : Token} (h : p.Sound)
    (hq : p.next? t = some q) : q.Sound ∧ q.written = p.written ++ [t] := by
  unfold Place.next? at hq
  split at hq
  · obtain rfl := Option.some.inj hq
    exact ⟨trivial, rfl⟩
  · obtain rfl := Option.some.inj hq
    exact ⟨⟨by simp, trivial⟩, rfl⟩
  · obtain rfl := Option.some.inj hq
    exact ⟨by simp [Place.Sound], rfl⟩
  · exact sound_and_written_of_nextAssignment h hq
  · obtain rfl := Option.some.inj hq
    exact ⟨⟨h, rfl⟩, by simp [Place.written, Pending.written]⟩
  · obtain rfl := Option.some.inj hq
    refine ⟨.inputBlock fun a ha => h a (Array.mem_toList_iff.1 ha), ?_⟩
    simp [Place.written, Node.tokens_branch, Node.branchTokens, Grammar.written, List.flatMap_def]
  · obtain rfl := Option.some.inj hq
    exact ⟨⟨by simp, h⟩, rfl⟩
  · exact sound_and_written_of_beginValue h hq
  · exact sound_and_written_of_nextEntry h hq
  · obtain rfl := Option.some.inj hq
    refine ⟨⟨forall_mem_push h.1 (.entrySpread _), h.2⟩, ?_⟩
    simp [Place.written, Node.tokens_leaf, Node.leafTokens]
  · obtain rfl := Option.some.inj hq
    refine ⟨⟨h.1, sound_push_segment h.2.1 _, h.2.2⟩, ?_⟩
    obtain ⟨hne, -⟩ := Shaped.path_iff.1 h.2.1
    simp [Place.written, Node.tokens_path_append hne, Node.tokens_leaf, Node.leafTokens]
  · exact sound_and_written_of_nextInPath h hq
  · exact sound_and_written_of_nextItem h hq
  · obtain rfl := Option.some.inj hq
    refine ⟨⟨forall_mem_push h.1 (.itemSpread _), h.2⟩, ?_⟩
    simp [Place.written, Node.tokens_leaf, Node.leafTokens]
  · exact sound_and_written_of_nextPart h hq
  · cases hq

/-- So do the tokens of a whole run. -/
theorem Place.sound_and_written_of_leads {p q : Place} {tokens : List Token} (h : p.Sound)
    (hq : p.Leads tokens q) : q.Sound ∧ q.written = p.written ++ tokens := by
  induction tokens generalizing p with
  | nil =>
    obtain rfl := leads_nil_iff.1 hq
    exact ⟨h, (List.append_nil _).symm⟩
  | cons t tokens ih =>
    obtain ⟨next, hnext, hq⟩ := leads_cons_iff.1 hq
    obtain ⟨hsound, hwritten⟩ := sound_and_written_of_next? h hnext
    obtain ⟨hsound', hwritten'⟩ := ih hsound hq
    refine ⟨hsound', ?_⟩
    rw [hwritten', hwritten, List.append_assoc, List.singleton_append]

/-! ### Where the tokens of a tree lead -/

/-- Trees whose tokens each add the tree to the parts gathered add themselves one after the other. -/
theorem Place.leads_flatMap_tokens (place : Array Node → Place) {ns : List Node}
    (h : ∀ n ∈ ns, ∀ before, (place before).Leads n.tokens (place (before.push n)))
    (before : Array Node) :
    (place before).Leads (ns.flatMap Node.tokens) (place (before ++ ns.toArray)) := by
  induction ns generalizing before with
  | nil =>
    rw [List.flatMap_nil, Array.append_empty]
    exact Leads.refl _
  | cons n ns ih =>
    have hrest := ih (fun m hm => h m (List.mem_cons_of_mem n hm)) (before.push n)
    rw [List.flatMap_cons]
    refine (h n List.mem_cons_self before).append ?_
    simpa using hrest

/-- What closes such a list is read behind the last of the trees. -/
theorem Place.leads_flatMap_tokens_append (place : Array Node → Place) {ns : List Node}
    (h : ∀ n ∈ ns, ∀ before, (place before).Leads n.tokens (place (before.push n)))
    {closing : List Token} {q : Place} (hclosing : (place ns.toArray).Leads closing q) :
    (place #[]).Leads (ns.flatMap Node.tokens ++ closing) q := by
  have hall := leads_flatMap_tokens place h #[]
  rw [Array.empty_append] at hall
  exact hall.append hclosing

/-- Where the tokens of a well-shaped tree lead, for each production. -/
def LeadsThrough : Production → Node → Prop
  | .config, n => Place.start.Leads n.tokens (.done n)
  | .inputBlock, n => Place.blockStart.Leads n.tokens (.rootStart n)
  | .assignment, n =>
    ∀ before, (Place.assignments before).Leads n.tokens (.assignments (before.push n))
  | .object, n =>
    ∃ rest, n.tokens = .symbol .braceOpen :: rest ∧
      ∀ pending : Pending, (Place.entries #[] pending).Leads rest (pending.deliver n)
  | .entry, n =>
    ∀ before object, (Place.entries before object).Leads n.tokens (.entries (before.push n) object)
  | .path, n =>
    ∃ segments, n = .branch .path segments ∧ ∀ before object,
      (Place.entries before object).Leads n.tokens (.pathEnd before segments.toArray object)
  | .segment, n => ∃ key, n = .leaf .pathSegment (.text key)
  | .item, n =>
    ∀ before array, (Place.items before array).Leads n.tokens (.items (before.push n) array)
  | .part, n =>
    ∀ before string, (Place.parts before string).Leads n.tokens (.parts (before.push n) string)
  | .value, n => ∀ pending : Pending, (Place.value pending).Leads n.tokens (pending.deliver n)

/-- Where a value is due, an item of an array may begin with the same token. -/
theorem nextItem_of_beginValue {before : Array Node} {array : Pending} {t : Token} {q : Place}
    (h : beginValue (.item before array) t = some q) : nextItem before array t = some q := by
  unfold nextItem
  split
  · cases h
  · cases h
  · exact h

theorem Place.leads_items_of_leads_value {before : Array Node} {array : Pending}
    {tokens : List Token} {ns : Array Node}
    (h : (Place.value (.item before array)).Leads tokens (.items ns array)) :
    (Place.items before array).Leads tokens (.items ns array) := by
  cases tokens with
  | nil => cases leads_nil_iff.1 h
  | cons t tokens =>
    obtain ⟨q, hq, h⟩ := leads_cons_iff.1 h
    exact Leads.cons (nextItem_of_beginValue hq) h

/-- After the first segment of a path the others follow, each behind a dot. -/
theorem Place.leads_segments {segments : List Node}
    (h : ∀ s ∈ segments, ∃ key, s = .leaf .pathSegment (.text key)) (before path : Array Node)
    (object : Pending) :
    (Place.pathEnd before path object).Leads
      ((segments.map Node.tokens).flatMap (.symbol .dot :: ·))
      (.pathEnd before (path ++ segments.toArray) object) := by
  induction segments generalizing path with
  | nil =>
    rw [List.map_nil, List.flatMap_nil, Array.append_empty]
    exact Leads.refl _
  | cons s segments ih =>
    obtain ⟨key, rfl⟩ := h s List.mem_cons_self
    have hrest := ih (fun m hm => h m (List.mem_cons_of_mem _ hm))
      (path.push (.leaf .pathSegment (.text key)))
    have hfirst : (Place.pathEnd before path object).Leads [.symbol .dot, .segment key]
        (.pathEnd before (path.push (.leaf .pathSegment (.text key))) object) :=
      Leads.cons rfl (Leads.single rfl)
    rw [List.map_cons, List.flatMap_cons, Node.tokens_leaf]
    refine hfirst.append ?_
    simpa using hrest

/-! ### One production -/

section Productions

variable {object block value path : Node} {assignments entries segments items parts : List Node}

theorem leadsThrough_config (h : LeadsThrough .object object) :
    LeadsThrough .config (.branch .config [object]) := by
  obtain ⟨rest, htokens, hrest⟩ := h
  have hconfig : (Node.branch .config [object]).tokens = .symbol .braceOpen :: rest := by
    rw [Node.tokens_branch, List.map_singleton, ← htokens]
    simp [Node.branchTokens]
  show Place.start.Leads _ _
  rw [hconfig]
  exact Place.Leads.cons rfl (hrest (.root none))

theorem leadsThrough_configWithInputs (hblock : LeadsThrough .inputBlock block)
    (hobject : LeadsThrough .object object) :
    LeadsThrough .config (.branch .config [block, object]) := by
  obtain ⟨rest, htokens, hrest⟩ := hobject
  have hconfig : (Node.branch .config [block, object]).tokens =
      .symbol .letWord :: (block.tokens ++ .symbol .braceOpen :: rest) := by
    rw [Node.tokens_branch, ← htokens]
    rfl
  have hroot : (Place.rootStart block).Leads (.symbol .braceOpen :: rest)
      (.done (.branch .config [block, object])) :=
    Place.Leads.cons rfl (hrest (.root (some block)))
  show Place.start.Leads _ _
  rw [hconfig]
  exact Place.Leads.cons rfl (hblock.append hroot)

/-- An input block is left behind its closing brace and the word in. -/
theorem leadsThrough_inputBlock (h : ∀ a ∈ assignments, LeadsThrough .assignment a) :
    LeadsThrough .inputBlock (.branch .assignBlock assignments) := by
  have hclosing : (Place.assignments assignments.toArray).Leads
      [.symbol .braceClose, .symbol .inWord] (.rootStart (.branch .assignBlock assignments)) :=
    Place.Leads.cons rfl (Place.Leads.single rfl)
  show Place.blockStart.Leads _ _
  rw [Node.tokens_branch, Node.branchTokens, ← List.flatMap_def]
  exact Place.Leads.cons rfl (Place.leads_flatMap_tokens_append Place.assignments h hclosing)

theorem leadsThrough_assignment (name : String) (h : LeadsThrough .value value) :
    LeadsThrough .assignment
      (.branch .assignment [.leaf .input (.text name), .branch .value [value]]) := by
  intro before
  have htokens : (Node.branch .assignment
      [.leaf .input (.text name), .branch .value [value]]).tokens =
        .input name :: .symbol .equals :: value.tokens := by
    simp [Node.tokens_branch, Node.branchTokens, Node.tokens_leaf, Node.leafTokens]
  rw [htokens]
  exact Place.Leads.cons rfl (Place.Leads.cons rfl (h (.assignment before name)))

/-- An object is finished at its closing brace, whatever it is the value of. -/
theorem leadsThrough_object (h : ∀ e ∈ entries, LeadsThrough .entry e) :
    LeadsThrough .object (.branch .object entries) := by
  refine ⟨entries.flatMap Node.tokens ++ [.symbol .braceClose], ?_, fun pending => ?_⟩
  · rw [Node.tokens_branch, Node.branchTokens, ← List.flatMap_def, List.cons_append]
  · have hclosing : (Place.entries entries.toArray pending).Leads [.symbol .braceClose]
        (pending.deliver (.branch .object entries)) :=
      Place.Leads.single rfl
    exact Place.leads_flatMap_tokens_append (fun before => .entries before pending)
      (fun e he before => h e he before pending) hclosing

theorem leadsThrough_pair (hpath : LeadsThrough .path path) (hvalue : LeadsThrough .value value) :
    LeadsThrough .entry (.branch .pair [path, value]) := by
  intro before object
  obtain ⟨segments, rfl, hpath⟩ := hpath
  have htokens : (Node.branch .pair [.branch .path segments, value]).tokens =
      (Node.branch .path segments).tokens ++ .symbol .equals :: value.tokens :=
    Node.tokens_branch _ _
  rw [htokens]
  exact (hpath before object).append
    (Place.Leads.cons rfl (hvalue (.pair before segments.toArray object)))

theorem leadsThrough_path (hne : segments ≠ []) (h : ∀ s ∈ segments, LeadsThrough .segment s) :
    LeadsThrough .path (.branch .path segments) := by
  refine ⟨segments, rfl, fun before object => ?_⟩
  obtain ⟨first, others, rfl⟩ := List.exists_cons_of_ne_nil hne
  obtain ⟨key, rfl⟩ := h first List.mem_cons_self
  have hothers := Place.leads_segments (fun s hs => h s (List.mem_cons_of_mem _ hs)) before
    #[.leaf .pathSegment (.text key)] object
  rw [Node.tokens_branch, List.map_cons, Node.tokens_leaf]
  refine Place.Leads.cons rfl ?_
  simpa using hothers

/-- An array is finished at its closing bracket. -/
theorem leadsThrough_array (h : ∀ i ∈ items, LeadsThrough .item i) :
    LeadsThrough .value (.branch .array items) := by
  intro pending
  have hclosing : (Place.items items.toArray pending).Leads [.symbol .bracketClose]
      (pending.deliver (.branch .array items)) :=
    Place.Leads.single rfl
  rw [Node.tokens_branch, Node.branchTokens, ← List.flatMap_def]
  exact Place.Leads.cons rfl (Place.leads_flatMap_tokens_append (fun before => .items before pending)
    (fun i hi before => h i hi before pending) hclosing)

/-- A string is finished at its closing quote. -/
theorem leadsThrough_string (h : ∀ p ∈ parts, LeadsThrough .part p) :
    LeadsThrough .value (.branch .string parts) := by
  intro pending
  have hclosing : (Place.parts parts.toArray pending).Leads [.symbol .doubleQuote]
      (pending.deliver (.branch .string parts)) :=
    Place.Leads.single rfl
  rw [Node.tokens_branch, Node.branchTokens, ← List.flatMap_def]
  exact Place.Leads.cons rfl (Place.leads_flatMap_tokens_append (fun before => .parts before pending)
    (fun p hp before => h p hp before pending) hclosing)

/-- An object is a value: its first token leads into it. -/
theorem leadsThrough_objectValue (h : LeadsThrough .object object) : LeadsThrough .value object := by
  intro pending
  obtain ⟨rest, htokens, hrest⟩ := h
  rw [htokens]
  exact Place.Leads.cons rfl (hrest pending)

/-- A value that is one token leads to where that token leads. -/
theorem leadsThrough_value_of_single {n : Node} {t : Token} (htokens : n.tokens = [t])
    (h : ∀ pending : Pending, beginValue pending t = some (pending.deliver n)) :
    LeadsThrough .value n := by
  intro pending
  rw [htokens]
  exact Place.Leads.single (h pending)

end Productions

/-- The tokens of a well-shaped tree lead through its production. -/
theorem leadsThrough_of_shaped {production : Production} {n : Node} (h : Shaped production n) :
    LeadsThrough production n := by
  induction h with
  | config _ ih => exact leadsThrough_config ih
  | configWithInputs _ _ ihblock ihobject => exact leadsThrough_configWithInputs ihblock ihobject
  | inputBlock _ ih => exact leadsThrough_inputBlock ih
  | assignment name _ ih => exact leadsThrough_assignment name ih
  | object _ ih => exact leadsThrough_object ih
  | entrySpread name =>
    intro before object
    rw [Node.tokens_leaf, Node.leafTokens]
    exact Place.Leads.cons rfl (Place.Leads.single rfl)
  | pair _ _ ihpath ihvalue => exact leadsThrough_pair ihpath ihvalue
  | path hne _ ih => exact leadsThrough_path hne ih
  | segment key => exact ⟨key, rfl⟩
  | itemSpread name =>
    intro before array
    rw [Node.tokens_leaf, Node.leafTokens]
    exact Place.Leads.cons rfl (Place.Leads.single rfl)
  | itemValue _ ih =>
    intro before array
    exact Place.leads_items_of_leads_value (ih (.item before array))
  | charSequence text =>
    intro before string
    exact Place.Leads.single rfl
  | charEscape char =>
    intro before string
    exact Place.Leads.single rfl
  | interpolation name =>
    intro before string
    exact Place.Leads.single rfl
  | objectValue _ ih => exact leadsThrough_objectValue ih
  | array _ ih => exact leadsThrough_array ih
  | string _ ih => exact leadsThrough_string ih
  | input name => exact leadsThrough_value_of_single (Node.tokens_leaf _ _) fun _ => rfl
  | boolean value =>
    cases value with
    | true => exact leadsThrough_value_of_single (Node.tokens_leaf _ _) fun _ => rfl
    | false => exact leadsThrough_value_of_single (Node.tokens_leaf _ _) fun _ => rfl
  | float value => exact leadsThrough_value_of_single (Node.tokens_leaf _ _) fun _ => rfl
  | integer value => exact leadsThrough_value_of_single (Node.tokens_leaf _ _) fun _ => rfl
  | null => exact leadsThrough_value_of_single (Node.tokens_branch _ _) fun _ => rfl

/-! ### Accepted lists -/

theorem shaped_and_tokens_of_treeOf {tokens : List Token} {tree : Node}
    (h : treeOf tokens = .ok tree) : Shaped .config tree ∧ tree.tokens = tokens := by
  have hstart : Place.start.Sound := trivial
  exact Place.sound_and_written_of_leads hstart (treeOf_eq_ok_iff.1 h)

theorem treeOf_tokens_of_shaped {tree : Node} (h : Shaped .config tree) :
    treeOf tree.tokens = .ok tree :=
  treeOf_eq_ok_iff.2 (leadsThrough_of_shaped h)

/-- A list of tokens has a tree if and only if the tree is well-shaped and written with these tokens. -/
theorem treeOf_eq_ok_iff_shaped_and_tokens (tokens : List Token) (tree : Node) :
    treeOf tokens = .ok tree ↔ Shaped .config tree ∧ tree.tokens = tokens := by
  constructor
  · exact shaped_and_tokens_of_treeOf
  · rintro ⟨hshaped, rfl⟩
    exact treeOf_tokens_of_shaped hshaped

end ConfigLang.Grammar

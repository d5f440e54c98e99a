import ConfigLang.Proofs.Token.Cuts
import Mathlib.Data.List.Chain

/-!
# How modes are nested

Whatever a text is, and whether its tokens make sense or not, the modes of a cursor are nested as the constructs
of a document can be: each mode may be around only some others, and the outermost one is that of the top level.

* `Mode.encloses` - which modes may stand directly inside which.
* `Context.Nested` - the invariant: the modes enclose one another, from the top level inwards.
* `Transition.Suits` - what a token of a mode may do to the modes.
* `Context.Nested.apply`, `Cursor.nested_after` - one token and any number of attempts.
* `IsModeStack` - the shape that this gives the modes.
* `modes_are_nested` - the result.

A mode that is left uncovers one that was entered long before. The invariant is about neighbours only, so it
says all that is needed about that one already.
-/

namespace ConfigLang

/-! ### Which modes enclose which -/

/-- Whether a mode may stand directly inside another one. -/
def Mode.encloses : (outer inner : Mode) → Bool
  | topLevel, inputBlock | topLevel, object => true
  | inputBlock, object | inputBlock, array | inputBlock, value | inputBlock, string => true
  | object, object | object, array | object, value | object, string => true
  | array, object | array, array | array, string => true
  | _, _ => false

/-- What a token of a mode may do: enter a mode that may stand inside, leave any mode but the outermost, and put
in the place of a value a construct that may stand where values may. -/
def Transition.Suits (mode : Mode) : Transition → Prop
  | .stay => True
  | .push inner => mode.encloses inner = true
  | .pop => mode ≠ .topLevel
  | .replace inner =>
    mode = .value ∧ Mode.inputBlock.encloses inner = true ∧ Mode.object.encloses inner = true

instance (mode : Mode) : (transition : Transition) → Decidable (transition.Suits mode)
  | .stay => inferInstanceAs (Decidable True)
  | .push inner => inferInstanceAs (Decidable (mode.encloses inner = true))
  | .pop => inferInstanceAs (Decidable (mode ≠ .topLevel))
  | .replace inner => inferInstanceAs (Decidable
      (mode = .value ∧ Mode.inputBlock.encloses inner = true ∧ Mode.object.encloses inner = true))

/-- Each rule of a mode does what a token of the mode may do. -/
theorem Mode.suits_of_mem_rules (mode : Mode) : ∀ rule ∈ mode.rules, rule.transition.Suits mode := by
  cases mode <;> decide

theorem Mode.encloses_value_iff {outer : Mode} :
    outer.encloses .value = true ↔ outer = .inputBlock ∨ outer = .object := by
  cases outer <;> simp [encloses]

theorem Mode.encloses_inputBlock_iff {outer : Mode} :
    outer.encloses .inputBlock = true ↔ outer = .topLevel := by
  cases outer <;> simp [encloses]

theorem Mode.not_encloses_topLevel (outer : Mode) : outer.encloses .topLevel = false := by
  cases outer <;> rfl

/-! ### Contexts -/

/-- Each mode encloses the next one inwards, and the outermost one is that of the top level. -/
structure Context.Nested (c : Context) : Prop where
  encloses : c.modes.IsChain fun inner outer => outer.encloses inner = true
  outermost : c.modes.getLast? = some .topLevel

namespace Context.Nested

variable {c : Context} {transition : Transition}

theorem start : Context.start.Nested := ⟨List.isChain_singleton _, rfl⟩

/-- Only the top level has nothing around it. -/
theorem below_ne_nil (h : c.Nested) (hne : c.current ≠ .topLevel) : c.below ≠ [] := by
  obtain ⟨current, below⟩ := c
  intro hnil
  obtain rfl : below = [] := hnil
  exact hne (Option.some.inj h.outermost)

/-- A token of the innermost mode keeps the modes nested. -/
theorem apply (h : c.Nested) (hsuits : transition.Suits c.current) : (c.apply transition).Nested := by
  cases transition with
  | stay => exact h
  | push inner => exact ⟨List.isChain_cons_cons.2 ⟨hsuits, h.encloses⟩, h.outermost⟩
  | pop =>
    obtain ⟨current, _ | ⟨outer, below⟩⟩ := c
    · exact absurd rfl (h.below_ne_nil hsuits)
    · exact ⟨(List.isChain_cons_cons.1 h.encloses).2, h.outermost⟩
  | replace inner =>
    obtain ⟨current, _ | ⟨outer, below⟩⟩ := c
    · obtain ⟨rfl, -⟩ : current = .value ∧ _ := hsuits
      cases h.outermost
    · obtain ⟨rfl, hblock, hobject⟩ : current = .value ∧ _ := hsuits
      obtain ⟨houter, hbelow⟩ := List.isChain_cons_cons.1 h.encloses
      refine ⟨List.isChain_cons_cons.2 ⟨?_, hbelow⟩, h.outermost⟩
      -- A value stands directly inside an input block or an object, and so may what replaces it.
      rcases Mode.encloses_value_iff.1 houter with rfl | rfl
      · exact hblock
      · exact hobject

/-- A mode with others around it stands inside the first of them. -/
theorem encloses_of_modes_eq (h : c.Nested) {above below : List Mode} {inner outer : Mode}
    (heq : c.modes = above ++ inner :: outer :: below) : outer.encloses inner = true := by
  have hchain := h.encloses
  rw [heq] at hchain
  exact (List.isChain_cons_cons.1 hchain.right_of_append).1

/-- Nothing is around the top level. -/
theorem eq_nil_of_topLevel (h : c.Nested) {above below : List Mode}
    (heq : c.modes = above ++ .topLevel :: below) : below = [] := by
  cases below with
  | nil => rfl
  | cons outer below =>
    have hencloses := h.encloses_of_modes_eq heq
    rw [outer.not_encloses_topLevel] at hencloses
    cases hencloses

/-- An input block is directly inside the top level. -/
theorem eq_topLevel_of_inputBlock (h : c.Nested) {above below : List Mode}
    (heq : c.modes = above ++ .inputBlock :: below) : below = [.topLevel] := by
  cases below with
  | nil =>
    have hlast := h.outermost
    rw [heq, List.getLast?_append_of_ne_nil _ (List.cons_ne_nil _ _)] at hlast
    cases hlast
  | cons outer below =>
    obtain rfl := Mode.encloses_inputBlock_iff.1 (h.encloses_of_modes_eq heq)
    have heq' : c.modes = (above ++ [.inputBlock]) ++ .topLevel :: below := by
      rw [heq, List.append_assoc, List.singleton_append]
    rw [h.eq_nil_of_topLevel heq']

end Context.Nested

/-! ### The shape of the modes -/

/-- What the modes are, the innermost first. The list ends with the top level; if that is not all, an input block
or an object stands directly inside it, further inside any objects and arrays, and at the head of the list perhaps
a string, or a value if it is directly inside an input block or an object. -/
inductive IsModeStack : List Mode → Prop
  | topLevel : IsModeStack [.topLevel]
  | inside {outer : Mode} {constructs innermost : List Mode} :
      outer = .inputBlock ∨ outer = .object → (∀ m ∈ constructs, m = .object ∨ m = .array) →
      (innermost = [] ∨ innermost = [.string] ∨ innermost = [.value] ∧
        ((constructs ++ [outer]).head? = some .inputBlock ∨
          (constructs ++ [outer]).head? = some .object)) →
      IsModeStack (innermost ++ constructs ++ [outer, .topLevel])

/-- A mode that may stand directly inside the innermost one is one more of the stack. -/
theorem IsModeStack.cons {modes : List Mode} {outer inner : Mode} (h : IsModeStack (outer :: modes))
    (hencloses : outer.encloses inner = true) : IsModeStack (inner :: outer :: modes) := by
  generalize hstack : outer :: modes = stack at h
  cases h with
  | topLevel =>
    obtain ⟨rfl, rfl⟩ := List.cons.inj hstack
    refine @IsModeStack.inside inner [] [] ?_ (fun m hm => absurd hm List.not_mem_nil) (Or.inl rfl)
    revert hencloses
    cases inner <;> simp [Mode.encloses]
  | @inside root constructs innermost hroot hconstructs hinnermost =>
    rcases hinnermost with rfl | rfl | ⟨rfl, -⟩
    · have houter : (constructs ++ [root]).head? = some outer := by
        have hhead := congrArg List.head? hstack
        cases constructs with
        | nil => exact hhead.symm
        | cons m constructs => exact hhead.symm
      rw [List.nil_append]
      cases inner with
      | topLevel => simp [Mode.not_encloses_topLevel] at hencloses
      | inputBlock =>
        obtain rfl := Mode.encloses_inputBlock_iff.1 hencloses
        have hmem : Mode.topLevel = root ∨ Mode.topLevel ∈ constructs := by
          simpa [or_comm] using List.mem_of_head? houter
        rcases hmem with rfl | hmem
        · simp at hroot
        · simpa using hconstructs _ hmem
      | value =>
        refine @IsModeStack.inside root constructs [.value] hroot hconstructs (Or.inr (Or.inr ⟨rfl, ?_⟩))
        rcases Mode.encloses_value_iff.1 hencloses with rfl | rfl
        · exact Or.inl houter
        · exact Or.inr houter
      | object =>
        exact @IsModeStack.inside root (.object :: constructs) [] hroot
          (List.forall_mem_cons.2 ⟨Or.inl rfl, hconstructs⟩) (Or.inl rfl)
      | array =>
        exact @IsModeStack.inside root (.array :: constructs) [] hroot
          (List.forall_mem_cons.2 ⟨Or.inr rfl, hconstructs⟩) (Or.inl rfl)
      | string => exact @IsModeStack.inside root constructs [.string] hroot hconstructs (Or.inr (Or.inl rfl))
    · obtain ⟨rfl, -⟩ := List.cons.inj hstack
      cases hencloses
    · obtain ⟨rfl, -⟩ := List.cons.inj hstack
      cases hencloses

/-- Modes that enclose one another from the top level inwards have that shape. -/
theorem isModeStack_of_isChain {modes : List Mode}
    (hchain : modes.IsChain fun inner outer => outer.encloses inner = true)
    (hlast : modes.getLast? = some .topLevel) : IsModeStack modes := by
  induction modes with
  | nil => cases hlast
  | cons inner modes ih =>
    cases modes with
    | nil =>
      obtain rfl := Option.some.inj hlast
      exact .topLevel
    | cons outer modes =>
      obtain ⟨hencloses, hrest⟩ := List.isChain_cons_cons.1 hchain
      exact (ih hrest hlast).cons hencloses

/-! ### Cursors -/

namespace Cursor

/-- The cursor after some attempts to read a token, whether there was one or not. -/
def afterAttempts (c : Cursor) : Nat → Cursor
  | 0 => c
  | attempts + 1 => (c.afterAttempts attempts).next.2

/-- An attempt keeps the modes nested. -/
theorem nested_next {c : Cursor} (h : c.context.Nested) : c.next.2.context.Nested := by
  rcases c.context_next with ⟨-, hsame⟩ | ⟨t, transition, -, htransition, happly⟩
  · rw [hsame]
    exact h
  · obtain ⟨rule, hrule, -, rfl⟩ := Mode.exists_rule_of_transition? htransition
    rw [happly]
    exact h.apply (Mode.suits_of_mem_rules c.mode rule hrule)

/-- So does any number of attempts. -/
theorem nested_afterAttempts {c : Cursor} (h : c.context.Nested) (attempts : Nat) :
    (c.afterAttempts attempts).context.Nested := by
  induction attempts with
  | zero => exact h
  | succ attempts ih => exact nested_next ih

end Cursor

/-! ### Whole documents -/

/-- Whatever the text is, and after any number of attempts to read a token, failed ones included, the modes have
the shape of a stack that goes from the top level through an input block or an object and then through objects
and arrays to perhaps a value or a string. There is always a mode, the top level is only at the bottom and an
input block only right above it. A rule that leaves a mode has another one to leave it for, and a rule that puts
a mode in the place of another one does so to a value. -/
theorem modes_are_nested (source : String) (attempts : Nat) :
    let c := (Cursor.start source).afterAttempts attempts
    IsModeStack c.context.modes ∧ c.context.modes ≠ [] ∧
      (∀ above below, c.context.modes = above ++ .topLevel :: below → below = []) ∧
      (∀ above below, c.context.modes = above ++ .inputBlock :: below → below = [.topLevel]) ∧
      ∀ rule ∈ c.mode.rules, (rule.transition = .pop → c.context.below ≠ []) ∧
        ∀ inner, rule.transition = .replace inner → c.mode = .value := by
  intro c
  have hnested : c.context.Nested := Cursor.nested_afterAttempts .start attempts
  refine ⟨isModeStack_of_isChain hnested.encloses hnested.outermost, List.cons_ne_nil _ _,
    fun _ _ heq => hnested.eq_nil_of_topLevel heq, fun _ _ heq => hnested.eq_topLevel_of_inputBlock heq,
    fun rule hrule => ?_⟩
  have hsuits := Mode.suits_of_mem_rules c.mode rule hrule
  constructor
  · intro hpop
    rw [hpop] at hsuits
    exact hnested.below_ne_nil hsuits
  · intro inner hreplace
    rw [hreplace] at hsuits
    exact hsuits.1

/-- A string in an array cannot go on with the dollar sign, and three attempts to read it leave the modes alone:
the string can still be left. -/
theorem modes_in_string_that_cannot_go_on :
    let c := (Cursor.start "\x7b a = [ \"x$").afterAttempts 9
    c.context.modes = [.string, .array, .object, .topLevel] ∧ c.next.1.toOption = none ∧
      IsModeStack c.context.modes ∧ (⟨.symbol .doubleQuote, .pop⟩ : Rule) ∈ c.mode.rules ∧
      c.context.below ≠ [] := by
  intro c
  have hmodes : c.context.modes = [.string, .array, .object, .topLevel] := by
    decide +kernel
  have hmode : c.mode = .string := (List.cons.inj hmodes).1
  have hnext : c.next.1.toOption = none := by
    decide +kernel
  have hrule : (⟨.symbol .doubleQuote, .pop⟩ : Rule) ∈ c.mode.rules := by
    rw [hmode]
    decide
  obtain ⟨hshape, -, -, -, hrules⟩ := modes_are_nested "\x7b a = [ \"x$" 9
  exact ⟨hmodes, hnext, hshape, hrule, (hrules _ hrule).1 rfl⟩

end ConfigLang

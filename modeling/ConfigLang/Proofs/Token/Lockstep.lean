import ConfigLang.Proofs.Grammar.Walk
import ConfigLang.Proofs.Token.Priority

/-!
# Modes and places

Each place in the grammar has its modes: those of the constructs around it. Where the grammar goes on
with a token, the innermost mode has a rule for the tokens of that kind, and the rule's transition leads
to the modes of the next place.

* `Grammar.Place.context` - the modes of a place.
* `Grammar.Place.inString` - the places inside a string, entered and left by the quotes.
* `Grammar.Place.follows_of_next?` - the result for one token.
-/

namespace ConfigLang

namespace Context

@[simp] theorem current_apply_push (c : Context) (inner : Mode) :
    (c.apply (.push inner)).current = inner := rfl

end Context

/-- The quote at either end of a string. -/
def Token.isQuote : Token → Bool
  | symbol .doubleQuote => true
  | _ => false

theorem Token.isQuote_iff {t : Token} : t.isQuote = true ↔ t = .symbol .doubleQuote := by
  constructor
  · intro h
    cases t with
    | symbol s => cases s <;> first | rfl | cases h
    | _ => cases h
  · rintro rfl
    rfl

namespace Grammar

/-! ### The modes of a place -/

/-- The modes around a value. -/
def Pending.context : Pending → Context
  | root _ => .start
  | assignment _ _ => Context.start.apply (.push .inputBlock)
  | pair _ _ object => object.context.apply (.push .object)
  | item _ array => array.context.apply (.push .array)

/-- The modes around a place. -/
def Place.context : Place → Context
  | start => .start
  | blockStart => Context.start.apply (.push .inputBlock)
  | assignments _ => Context.start.apply (.push .inputBlock)
  | inputName _ _ => Context.start.apply (.push .inputBlock)
  | blockEnd _ => Context.start.apply (.push .inputBlock)
  | rootStart _ => .start
  | value pending => pending.context.apply (.push .value)
  | entries _ object => object.context.apply (.push .object)
  | entrySpread _ object => object.context.apply (.push .object)
  | segment _ _ object => object.context.apply (.push .object)
  | pathEnd _ _ object => object.context.apply (.push .object)
  | items _ array => array.context.apply (.push .array)
  | itemSpread _ array => array.context.apply (.push .array)
  | parts _ string => string.context.apply (.push .string)
  | done _ => .start

/-- The place is between the quotes of a string. -/
def Place.inString : Place → Bool
  | parts _ _ => true
  | _ => false

theorem Place.current_context_eq_string_iff {p : Place} :
    p.context.current = .string ↔ p.inString = true := by
  cases p <;> simp [context, inString, Context.start]

@[simp] theorem Pending.context_deliver (pending : Pending) (v : Node) :
    (pending.deliver v).context = pending.context := by
  cases pending with
  | root inputs => cases inputs <;> rfl
  | assignment before name => rfl
  | pair before path object => rfl
  | item before array => rfl

@[simp] theorem Pending.inString_deliver (pending : Pending) (v : Node) :
    (pending.deliver v).inString = false := by
  cases pending with
  | root inputs => cases inputs <;> rfl
  | assignment before name => rfl
  | pair before path object => rfl
  | item before array => rfl

/-! ### What one token does to them -/

/-- The modes have a rule for the token that leads to the modes of the place, and the token is a quote
if it enters or leaves a string. -/
def Place.Follows (q : Place) (context : Context) (inString : Bool) (t : Token) : Prop :=
  (∃ transition, context.current.transition? t.kind = some transition ∧
    q.context = context.apply transition) ∧ q.inString = (inString != t.isQuote)

section Steps

variable {pending array string object : Pending} {before path : Array Node} {t : Token}
  {p q : Place}

/-- A token that finishes a value leads back to the modes around the value. -/
theorem follows_deliver {context : Context} {inString : Bool} {transition : Transition} (v : Node)
    (htransition : context.current.transition? t.kind = some transition)
    (hcontext : pending.context = context.apply transition) (hquote : inString = t.isQuote) :
    (pending.deliver v).Follows context inString t := by
  refine ⟨⟨transition, htransition, ?_⟩, ?_⟩
  · rw [pending.context_deliver, hcontext]
  · rw [pending.inString_deliver, hquote, bne_self_eq_false]

theorem follows_of_beginValue (h : beginValue pending t = some q) :
    q.Follows (Place.value pending).context false t := by
  unfold beginValue at h
  split at h <;> cases h
  · exact ⟨⟨.replace .object, rfl, rfl⟩, rfl⟩
  · exact ⟨⟨.replace .array, rfl, rfl⟩, rfl⟩
  · exact ⟨⟨.replace .string, rfl, rfl⟩, rfl⟩
  all_goals exact follows_deliver _ rfl rfl rfl

theorem follows_of_nextAssignment (h : nextAssignment before t = some q) :
    q.Follows (Place.assignments before).context false t := by
  unfold nextAssignment at h
  split at h <;> cases h
  · exact ⟨⟨.stay, rfl, rfl⟩, rfl⟩
  · exact ⟨⟨.stay, rfl, rfl⟩, rfl⟩

theorem follows_of_nextEntry (h : nextEntry before object t = some q) :
    q.Follows (Place.entries before object).context false t := by
  unfold nextEntry at h
  split at h <;> cases h
  · exact ⟨⟨.stay, rfl, rfl⟩, rfl⟩
  · exact ⟨⟨.stay, rfl, rfl⟩, rfl⟩
  · exact follows_deliver _ rfl rfl rfl

theorem follows_of_nextInPath (h : nextInPath before path object t = some q) :
    q.Follows (Place.pathEnd before path object).context false t := by
  unfold nextInPath at h
  split at h <;> cases h
  · exact ⟨⟨.stay, rfl, rfl⟩, rfl⟩
  · exact ⟨⟨.push .value, rfl, rfl⟩, rfl⟩

/-- In an array a value is begun without a mode of its own. -/
theorem follows_of_beginValue_item (h : beginValue (.item before array) t = some q) :
    q.Follows (Place.items before array).context false t := by
  unfold beginValue at h
  split at h <;> cases h
  · exact ⟨⟨.push .object, rfl, rfl⟩, rfl⟩
  · exact ⟨⟨.push .array, rfl, rfl⟩, rfl⟩
  · exact ⟨⟨.push .string, rfl, rfl⟩, rfl⟩
  all_goals exact ⟨⟨.stay, rfl, rfl⟩, rfl⟩

theorem follows_of_nextItem (h : nextItem before array t = some q) :
    q.Follows (Place.items before array).context false t := by
  unfold nextItem at h
  split at h
  · cases h
    exact ⟨⟨.stay, rfl, rfl⟩, rfl⟩
  · cases h
    exact follows_deliver _ rfl rfl rfl
  · exact follows_of_beginValue_item h

theorem follows_of_nextPart (h : nextPart before string t = some q) :
    q.Follows (Place.parts before string).context true t := by
  rcases cases_of_nextPart h with
    ⟨text, rfl, rfl⟩ | ⟨c, rfl, rfl⟩ | ⟨name, rfl, rfl⟩ | ⟨rfl, rfl⟩
  · exact ⟨⟨.stay, rfl, rfl⟩, rfl⟩
  · exact ⟨⟨.stay, rfl, rfl⟩, rfl⟩
  · exact ⟨⟨.stay, rfl, rfl⟩, rfl⟩
  · exact follows_deliver _ rfl rfl rfl

/-- Wherever the grammar goes on with a token, the modes go on with it in step. -/
theorem Place.follows_of_next? (h : p.next? t = some q) : q.Follows p.context p.inString t := by
  unfold Place.next? at h
  split at h
  · cases h
    exact ⟨⟨.push .inputBlock, rfl, rfl⟩, rfl⟩
  · cases h
    exact ⟨⟨.push .object, rfl, rfl⟩, rfl⟩
  · cases h
    exact ⟨⟨.stay, rfl, rfl⟩, rfl⟩
  · exact follows_of_nextAssignment h
  · cases h
    exact ⟨⟨.push .value, rfl, rfl⟩, rfl⟩
  · cases h
    exact ⟨⟨.pop, rfl, rfl⟩, rfl⟩
  · cases h
    exact ⟨⟨.push .object, rfl, rfl⟩, rfl⟩
  · exact follows_of_beginValue h
  · exact follows_of_nextEntry h
  · cases h
    exact ⟨⟨.stay, rfl, rfl⟩, rfl⟩
  · cases h
    exact ⟨⟨.stay, rfl, rfl⟩, rfl⟩
  · exact follows_of_nextInPath h
  · exact follows_of_nextItem h
  · cases h
    exact ⟨⟨.stay, rfl, rfl⟩, rfl⟩
  · exact follows_of_nextPart h
  · cases h

end Steps

end Grammar

end ConfigLang

import ConfigLang.Token.Spelling

/-!
# Cutting a document into tokens

A cursor is a place in a document: the text from there on, and the modes of the constructs around
it. It moves on by one token at a time. Outside string literals it first skips the gap in front of
it, spaces and comments, and then reads one token by the rules of the innermost mode.

* `gap` - the spaces and comments at the start of a text.
* `Cursor.next` - one token, the end of the document, or no token because no rule applies.
* `Cursor.run` - all tokens up to the end or to such a place.
* `tokensOf` - the tokens of a document.

The cursor that `next` answers with is the one to go on with, also when no rule applies. A token is
never empty, so the text gets shorter and `run` ends.
-/

namespace ConfigLang

/-! ### Gaps -/

/-- The spaces and comments at the start of a text, or the rest of a comment and what follows it.
A comment begins with two slashes and lasts to the end of the line. -/
def gap : (inComment : Bool) → List Char → List Char
  | _, [] => []
  | true, c :: rest => c :: gap (c != '\n') rest
  | false, '/' :: '/' :: rest => '/' :: '/' :: gap true rest
  | false, c :: rest => if Lexeme.isSpace c then c :: gap false rest else []

/-- The length of a text in UTF-8 bytes. -/
def byteLength : List Char → Nat
  | [] => 0
  | c :: rest => c.utf8Size + byteLength rest

/-! ### Places -/

/-- A place in a document. -/
structure Cursor where
  context : Context
  /-- The text from this place on. -/
  rest : List Char
  /-- The length of the text before this place, in UTF-8 bytes. -/
  offset : Nat
deriving DecidableEq, Repr

/-- No rule of the mode applies to the text at this place. -/
structure Unreadable where
  mode : Mode
  offset : Nat
  /-- What stands there, at most sixteen characters of it. -/
  found : String
deriving DecidableEq, Repr

/-- What is wrong. -/
def Unreadable.message (e : Unreadable) : String :=
  "unexpected input " ++ Text.quoteString e.found ++ " at offset " ++
    Decimal.writeInt e.offset ++ " while lexing " ++ e.mode.name

namespace Cursor

/-- The start of a document. -/
def start (source : String) : Cursor := ⟨.start, source.toList, 0⟩

/-- The innermost mode. -/
def mode (c : Cursor) : Mode := c.context.current

/-- The error of a place where no rule applies. -/
def unreadable (c : Cursor) : Unreadable := ⟨c.mode, c.offset, String.ofList (c.rest.take 16)⟩

/-- Moves on over characters at the start of the text. -/
def advance (c : Cursor) (read : List Char) : Cursor :=
  { c with rest := c.rest.drop read.length, offset := c.offset + byteLength read }

/-- Skips the gap in front of the cursor. In a string literal there are no gaps. -/
def skipGap (c : Cursor) : Cursor :=
  if c.mode = .string then c else c.advance (gap false c.rest)

/-- Moves on over a lexeme and changes the modes. -/
def pass (c : Cursor) (lexeme : Lexeme) (transition : Transition) : Cursor :=
  { c.advance lexeme.spelling with context := c.context.apply transition }

/-! ### One token -/

/-- Reads the next token; none at the end of the document. -/
def next (c : Cursor) : Except Unreadable (Option Token) × Cursor :=
  let c := c.skipGap
  if c.rest = [] then (.ok none, c)
  else match c.mode.read c.rest with
    | some (lexeme, transition) => (.ok (some lexeme.token), c.pass lexeme transition)
    | none => (.error c.unreadable, c)

theorem skipGap_rest_length_le (c : Cursor) : c.skipGap.rest.length ≤ c.rest.length := by
  unfold skipGap
  split
  · exact Nat.le_refl _
  · simp [advance]

/-- A token shortens the text. -/
theorem next_rest_length_lt {c d : Cursor} {t : Token} (h : c.next = (.ok (some t), d)) :
    d.rest.length < c.rest.length := by
  simp only [next] at h
  split at h
  · simp at h
  next hrest =>
    split at h
    next lexeme transition hread =>
      obtain ⟨-, rfl⟩ := Prod.mk.inj h
      have hne := (Mode.ne_nil_and_isPrefix_of_read hread).1
      have hle := skipGap_rest_length_le c
      have hpos := List.length_pos_iff.2 hrest
      have hlen := List.length_pos_iff.2 hne
      simp only [pass, advance, List.length_drop]
      omega
    · simp at h

/-! ### All tokens -/

/-- The tokens from a place on, up to the end of the document or to a place where no rule
applies. -/
structure Run where
  /-- Each token with the place after it. -/
  steps : List (Token × Cursor)
  /-- The error, unless the end of the document was reached. -/
  error : Option Unreadable
  /-- The place after everything. -/
  last : Cursor
deriving DecidableEq, Repr

/-- A run with one more step in front. -/
def Run.cons (t : Token) (c : Cursor) (r : Run) : Run := { r with steps := (t, c) :: r.steps }

/-- The tokens of a run. -/
def Run.tokens (r : Run) : List Token := r.steps.map (·.1)

/-- Reads tokens as long as there are any. -/
def run (c : Cursor) : Run :=
  match h : c.next with
  | (.ok (some t), d) =>
    have : d.rest.length < c.rest.length := next_rest_length_lt h
    d.run.cons t d
  | (.ok none, d) => ⟨[], none, d⟩
  | (.error e, d) => ⟨[], some e, d⟩
termination_by c.rest.length

end Cursor

/-- The tokens of a document. -/
def tokensOf (source : String) : Except Unreadable (List Token) :=
  let run := (Cursor.start source).run
  match run.error with
  | none => .ok run.tokens
  | some e => .error e

end ConfigLang

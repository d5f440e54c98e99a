import ConfigLang.Text.CodePoints

/-!
# Quoted text

Names, keys and pieces of text are shown in messages between quotes, with every character that would
not be seen on its own written as an escape.

* `isMark`, `isInvisible` - the characters that are not seen on their own.
* `isPlain` - the characters that stand for themselves.
* `quoteString` - a text in double quotes; a single quote in it stands for itself.
* `quoteChar` - a character in single quotes; a double quote stands for itself.
-/

namespace ConfigLang.Text

/-- Whether the code point `n` is a mark on the character before it, without a cell of its own. -/
def isMark (n : Nat) : Bool :=
  CodePoints.graphemeExtend.contains n && !CodePoints.halfwidthSoundMarks.contains n

/-- Whether the code point `n` leaves nothing to see. -/
def isInvisible (n : Nat) : Bool :=
  CodePoints.unprintable.contains n || CodePoints.defaultIgnorable.contains n

/-- A character that is seen on its own: visible, and no mark on the character before it. The ASCII
characters are decided without the tables. -/
def isPlain (c : Char) : Bool :=
  let n := c.toNat
  if n < 0x7F then 0x20 ≤ n else !isInvisible n && !isMark n

/-- The code point of a character in lower-case hexadecimal between braces. -/
def codePointEscape (c : Char) : List Char :=
  '\\' :: 'u' :: '\x7b' :: Nat.toDigits 16 c.toNat ++ ['\x7d']

/-- The written form of one character between the quotes `quote`. -/
def escape (quote c : Char) : List Char :=
  if c = '\x00' then ['\\', '0']
  else if c = '\t' then ['\\', 't']
  else if c = '\r' then ['\\', 'r']
  else if c = '\n' then ['\\', 'n']
  else if c = '\\' ∨ c = quote then ['\\', c]
  else if isPlain c then [c]
  else codePointEscape c

/-- A text in double quotes. -/
def quoteString (s : String) : String :=
  String.ofList ('"' :: s.toList.flatMap (escape '"') ++ ['"'])

/-- A character in single quotes. -/
def quoteChar (c : Char) : String :=
  String.ofList ('\'' :: escape '\'' c ++ ['\''])

end ConfigLang.Text

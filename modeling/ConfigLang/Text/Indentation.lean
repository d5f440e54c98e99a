import ConfigLang.Text.Blank
import ConfigLang.Text.Split

/-!
# The indentation of a block of text

A text of several lines is usually indented as far as the document around it. `unindent` removes
the indentation that the lines after the first have in common, and the first line with its break
when nothing stands on it.

* `opensEmpty` - the text starts with a line break, `\n` or `\r\n`.
* `indentation` - the number of spaces and tabs at the start of a line.
* `commonIndentation` - the least indentation of the lines that are not blank.
* `unindent` - the text without it.

The count is taken over lines that are not blank, but it is dropped from every line after the first;
a shorter blank line becomes empty.
-/

namespace ConfigLang.Text

/-! ### Lines -/

/-- Spaces and tabs make up an indentation. -/
def isIndent (c : Char) : Bool := c == ' ' || c == '\t'

/-- The number of spaces and tabs at the start of a line. -/
def indentation (line : List Char) : Nat := (line.takeWhile isIndent).length

/-- A line with nothing to be seen on it. -/
def isBlankLine (line : List Char) : Bool := line.all isBlank

/-- The least indentation of the lines that are not blank, and zero without such a line. -/
def commonIndentation (lines : List (List Char)) : Nat :=
  (((lines.filter (!isBlankLine ·)).map indentation).min?).getD 0

/-- The text begins with a line break. -/
def opensEmpty : List Char → Bool
  | '\n' :: _ => true
  | '\r' :: '\n' :: _ => true
  | _ => false

/-! ### The whole text -/

/-- The lines after the first without their common indentation. -/
def unindentLines (lines : List (List Char)) : List (List Char) :=
  let common := commonIndentation lines
  lines.map (·.drop common)

/-- Removes the common indentation of the lines after the first, and an empty opening line. -/
def unindentChars (text : List Char) : List Char :=
  match splitAt '\n' text with
  | [] => []
  | first :: lines =>
    let lines := unindentLines lines
    List.intercalate ['\n'] (if opensEmpty text then lines else first :: lines)

/-- Removes the common indentation of a text. -/
def unindent (text : String) : String := String.ofList (unindentChars text.toList)

end ConfigLang.Text

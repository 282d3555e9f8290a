import SnmpAgent.Text.Fields

/-!
# Blanks, words and lines

A *blank* is a character with the Unicode property `White_Space`. Words are
separated by blanks, lines by line feeds; a carriage return before a line feed
belongs to the separator, and a text that ends in a line feed has no further
line behind it.

* `isBlank`: the property, for all characters;
* `words`, `trim`, `lines`.
-/

namespace SnmpAgent.Text

/-- Whether a character has the property `White_Space`. -/
def isBlank (c : Char) : Bool :=
  let n := c.toNat
  (0x09 ≤ n && n ≤ 0x0D) || n == 0x20 || n == 0x85 || n == 0xA0 || n == 0x1680 ||
    (0x2000 ≤ n && n ≤ 0x200A) || n == 0x2028 || n == 0x2029 || n == 0x202F || n == 0x205F ||
    n == 0x3000

/-- The runs of characters that are not blank. -/
def words (text : List Char) : List (List Char) :=
  (splitWhere isBlank text).filter (¬·.isEmpty)

/-- The text without the blanks at its beginning and its end. -/
def trim (text : List Char) : List Char :=
  ((text.dropWhile isBlank).reverse.dropWhile isBlank).reverse

/-- A line without the carriage return at its end. -/
def dropReturn (line : List Char) : List Char :=
  if line.getLast? = some '\r' then line.dropLast else line

/-- The lines among the fields between line feeds: a carriage return before a
    line feed is dropped, and nothing after the last line feed is no line. -/
def closeLines : List (List Char) → List (List Char)
  | [] => []
  | [last] => if last.isEmpty then [] else [last]
  | line :: rest => dropReturn line :: closeLines rest

/-- The lines of a text. -/
def lines (text : List Char) : List (List Char) := closeLines (split '\n' text)

end SnmpAgent.Text

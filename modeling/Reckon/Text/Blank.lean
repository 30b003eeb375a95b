import Reckon.Text.Ranges

/-!
# Blanks

A blank is a character that separates words: a space separator, or a character whose
bidirectional class is that of white space or of a paragraph or segment separator.
-/

namespace Reckon.Text

/-- All blanks. -/
def blankRanges : Ranges := [
  (0x9, 0xd), (0x1c, 0x20), (0x85, 0x85), (0xa0, 0xa0), (0x1680, 0x1680), (0x2000, 0x200a),
  (0x2028, 0x2029), (0x202f, 0x202f), (0x205f, 0x205f), (0x3000, 0x3000)]

/-- A character that separates words. -/
def isBlank (c : Char) : Bool :=
  blankRanges.has c.toNat

/-- The text between the outer blanks. -/
def trimBlanks (cs : List Char) : List Char :=
  ((cs.dropWhile isBlank).reverse.dropWhile isBlank).reverse

/-- `trimBlanks` on strings. -/
def trim (s : String) : String :=
  String.ofList (trimBlanks s.toList)

end Reckon.Text

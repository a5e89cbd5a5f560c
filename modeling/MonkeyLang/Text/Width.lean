import MonkeyLang.Text.Property

namespace MonkeyLang.Text

def isWhite (c : Char) : Bool := inRanges blankRanges c

/-- Signs for a number, a word or a verse that are drawn over or under it. -/
def spanningSigns : List Char := ['\u0605', '\u070f', '\u0890', '\u0891', '\u08e2', '\ua8fa']

/-- Vowel signs that are the same text as two extending marks, and are drawn like them. -/
def pairedSigns : List Char :=
  ['\u0cc0', '\u0cc7', '\u0cc8', '\u0cca', '\u0ccb', '\u1b3b', '\u1b3d', '\u1b43']

/-- Whether a character is drawn within the cells of its neighbours, or not at all. -/
def isZeroWidth (c : Char) : Bool :=
  inRanges ignorableRanges c || inRanges extendRanges c || inRanges jamoRanges c ||
    inRanges prefixedRanges c || spanningSigns.contains c || pairedSigns.contains c

/-- The cells of a character that stands by itself. The filler U+115F takes the two cells of the
consonant that it stands for, and the joiner U+2D7F is seen unless it joins. Two signs are as wide
as the letters and stops that they are short for: U+17A4 as two, U+17D8 as three. -/
def glyphCells (c : Char) : Nat :=
  if c == '\u115f' || c == '\u17a4' then 2
  else if c == '\u2d7f' then 1
  else if c == '\u17d8' then 3
  else if isZeroWidth c then 0
  else if inRanges wideRanges c then 2
  else 1

/-- The cells of a character in the given column of its line. A tab fills up to the next multiple of
four columns, and any other white space takes one cell. -/
def cellCount (column : Nat) (c : Char) : Nat :=
  if c == '\t' then 4 - column % 4
  else if isWhite c then 1
  else glyphCells c

/-- A text without the white space at its end. -/
def trimEnd (text : List Char) : List Char := (text.reverse.dropWhile isWhite).reverse

end MonkeyLang.Text

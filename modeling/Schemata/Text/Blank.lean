import Schemata.Text.Ranges

/-!
# Blanks and words

Free text of doc comments is normalised before it is written: every run of blanks becomes one space,
and none is left at either end. `Text.normalizeSpace` does this in two passes over the text;
`Text.words` splits the same text into its maximal runs without a blank.
-/

namespace Schemata

/-- The blanks: white space of the Unicode standard, and the four separators `1C` to `1F`. -/
def blankRanges : Ranges :=
  [(0x09, 0x0D), (0x1C, 0x20), (0x85, 0x85), (0xA0, 0xA0), (0x1680, 0x1680), (0x2000, 0x200A),
    (0x2028, 0x2029), (0x202F, 0x202F), (0x205F, 0x205F), (0x3000, 0x3000)]

/-- Whether the code point is white space. -/
def CodePoint.isBlank (c : CodePoint) : Bool := blankRanges.holds c.val

namespace Text

/-- Every run of blanks as one space; `inRun` says that a blank came just before. -/
def squeezeFrom (inRun : Bool) : Text → Text
  | [] => []
  | c :: rest =>
    if c.isBlank then
      if inRun then squeezeFrom true rest else ' ' :: squeezeFrom true rest
    else c :: squeezeFrom false rest

/-- Every run of blanks as one space. -/
def squeeze (text : Text) : Text := squeezeFrom false text

/-- The text without the blanks at its ends. -/
def trim (text : Text) : Text :=
  ((text.dropWhile CodePoint.isBlank).reverse.dropWhile CodePoint.isBlank).reverse

/-- Runs of blanks as single spaces, and none at the ends: `"The  user\n   id "` becomes
`"The user id"`. -/
def normalizeSpace (text : Text) : Text := trim (squeeze text)

/-- The words of a text that follows the unfinished `word`. -/
def wordsFrom (word : Text) : Text → List Text
  | [] => if word.isEmpty then [] else [word]
  | c :: rest =>
    if c.isBlank then
      if word.isEmpty then wordsFrom [] rest else word :: wordsFrom [] rest
    else wordsFrom (word ++ [c]) rest

/-- The maximal runs without a blank, in order. -/
def words (text : Text) : List Text := wordsFrom [] text

end Text

end Schemata

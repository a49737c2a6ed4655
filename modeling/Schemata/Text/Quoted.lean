import Schemata.Numeric.Digits
import Schemata.Text.Printable

/-!
# Quoted text

How a message shows a text that came from its input: in single quotes, or in double quotes if it
holds a single quote and no double one. The backslash, the quote in use, line feed, carriage return
and tab are escaped by a letter, every other code point that is not printable by its number in
hexadecimal digits: two, four or eight of them, as few as hold it.
-/

namespace Schemata

namespace CodePoint

/-- The escape of a code point by its number. -/
def numbered (c : CodePoint) : Text :=
  if c.val < 0x100 then "\\x" ++ Text.hexadecimal 2 c.val
  else if c.val < 0x10000 then "\\u" ++ Text.hexadecimal 4 c.val
  else "\\U" ++ Text.hexadecimal 8 c.val

/-- How a code point stands between quotes of that kind. -/
def quoted (quote c : CodePoint) : Text :=
  if c = quote ∨ c = '\\' then ['\\', c]
  else if c = '\n' then "\\n"
  else if c = '\r' then "\\r"
  else if c = '\t' then "\\t"
  else if c.isPrintable then [c]
  else c.numbered

end CodePoint

namespace Text

/-- The quote that a text is put in: the double one if the text holds a single and no double one. -/
def quoteMark (text : Text) : CodePoint :=
  if text.contains (CodePoint.ofChar '\'') && !text.contains (CodePoint.ofChar '"') then '"'
  else '\''

/-- The text in quotes, on one line and all of it visible. -/
def quoted (text : Text) : Text :=
  quoteMark text :: (text.flatMap (quoteMark text).quoted ++ [quoteMark text])

/-- The text on a console, which shows no half of a surrogate pair: its escape stands for it. -/
def onConsole (text : Text) : Text :=
  text.flatMap fun c => if c.isHighSurrogate || c.isLowSurrogate then c.numbered else [c]

example : quoted "it's" = "\"it's\"" := by decide +kernel
example : quoted "a\\\t'\"" = "'a\\\\\\t\\'\"'" := by decide +kernel

end Text

end Schemata

import Schemata.Text

/-!
# Control sequences of terminals

A control sequence is the escape character, an opening square bracket, parameters (digits,
semicolons and question marks), and one final letter. A terminal obeys it and does not show it; a
message that need not go to a terminal leaves it out.
-/

namespace Schemata

namespace CodePoint

/-- The character that a control sequence begins with. -/
def escape : CodePoint := ofChar '\x1b'

/-- Whether a control sequence may hold the code point among its parameters. -/
def isParameter (c : CodePoint) : Bool := (48 ≤ c.val && c.val ≤ 57) || c = ';' || c = '?'

/-- Whether a control sequence may end with the code point: a letter of ASCII. -/
def isFinal (c : CodePoint) : Bool :=
  (65 ≤ c.val && c.val ≤ 90) || (97 ≤ c.val && c.val ≤ 122)

end CodePoint

namespace Text

/-- How many code points of a text that follows an escape character make a control sequence with
it, if any do. -/
def controlSequenceLength? : Text → Option Nat
  | [] => none
  | c :: rest =>
    if c = '[' then
      let parameters := rest.takeWhile CodePoint.isParameter
      match rest.drop parameters.length with
      | [] => none
      | final :: _ => if final.isFinal then some (parameters.length + 2) else none
    else none

/-- What is left of a text, so many of whose code points still belong to a control sequence. -/
def dropControlSequences : Nat → Text → Text
  | _, [] => []
  | pending + 1, _ :: rest => dropControlSequences pending rest
  | 0, c :: rest =>
    match if c = CodePoint.escape then controlSequenceLength? rest else none with
    | some length => dropControlSequences length rest
    | none => c :: dropControlSequences 0 rest

/-- The text without its control sequences. What comes together when one is left out is not looked
at again. -/
def withoutControlSequences (text : Text) : Text := dropControlSequences 0 text

example : withoutControlSequences "a\x1b[1;31mb\x1b[mc" = "abc" := by decide +kernel
example : withoutControlSequences "\x1b[\x1b[0mA" = "\x1b[A" := by decide +kernel
example : withoutControlSequences "\x1b[31" = "\x1b[31" := by decide +kernel

end Text

end Schemata

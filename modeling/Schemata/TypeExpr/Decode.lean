import Schemata.Json.Display
import Schemata.TypeExpr.Basic

/-!
# Reading type expressions from JSON values

An expression is written as a string, which is an identifier, or as an object whose `kind` says
what its other keys mean. What is no expression is answered by a `DecodeError`: the steps from the
value down to the part that is at fault, and what is wrong with it.

The key of a field of a shape may be any value, of which a text is made, and so may the kind that a
message names. With a limit on the digits of an integer in a text this may fail (`TypeExpr.read`);
without one, only what is no expression does (`TypeExpr.ofJson`).

The keys are looked up within the recursion, so that it follows the value; `childAt_eq`,
`membersAt_eq` and `shapeAt_eq` say that this is a look-up and then a decoding.
-/

namespace Schemata

/-- A step from a JSON value to a part of it. -/
inductive Step where
  | key (name : Text)
  | index (position : Nat)
  deriving DecidableEq

namespace Step

/-- A step as a path shows it. -/
def render : Step → Text
  | .key name => "." ++ name
  | .index position => "[" ++ Text.decimal position ++ "]"

/-- The part that a step leads to. -/
def follow? : Step → Json → Option Json
  | .key name, .obj fields => Fields.get? fields name
  | .index position, .arr items => items[position]?
  | _, _ => none

/-- The part that steps lead to, one after the other. -/
def followAll? : List Step → Json → Option Json
  | [], value => some value
  | step :: rest, value => (step.follow? value).bind (followAll? rest)

/-- A path: where it begins, then its steps. -/
def renderPath (base : Text) (steps : List Step) : Text := base ++ steps.flatMap render

end Step

/-- What keeps a JSON value from being an expression. -/
inductive Defect where
  /-- Neither an object nor a string, but a value of that sort. -/
  | notExpression (sort : Text)
  /-- An object without a key that its kind needs. -/
  | missing (key : Text)
  /-- An object of a kind that there is not. -/
  | unknownKind (kind : Json)
  | notText
  | notList
  /-- Neither a string nor a list of strings. -/
  | notTexts
  | notObject

/-- The text of a defect. -/
def Defect.message : Defect → Text
  | .notExpression sort => "expected an object or a string, got " ++ sort
  | .missing key => "missing required key '" ++ key ++ "'"
  | .unknownKind kind => "unknown node kind '" ++ kind.asName ++ "'"
  | .notText => "expected a string"
  | .notList => "expected a list"
  | .notTexts => "expected a string or a list of strings"
  | .notObject => "expected an object"

/-- Why a JSON value is not read as an expression. -/
inductive DecodeError where
  /-- The part that the steps lead to is at fault. -/
  | fault (steps : List Step) (defect : Defect)
  /-- A part has to be shown, and an integer in it has too many digits. -/
  | unprintable (part : Json)

/-- The same error, seen from the value that `step` starts at. -/
def DecodeError.under (step : Step) : DecodeError → DecodeError
  | .fault steps defect => .fault (step :: steps) defect
  | .unprintable part => .unprintable part

/-- The kinds of expressions that objects write. -/
inductive Kind where
  | identifier | name | nullable | union | intersection | array | generic | shape | const | param
  deriving DecidableEq

namespace Kind

/-- The word for a kind. -/
def word : Kind → Text
  | .identifier => "identifier"
  | .name => "name"
  | .nullable => "nullable"
  | .union => "union"
  | .intersection => "intersection"
  | .array => "array"
  | .generic => "generic"
  | .shape => "shape"
  | .const => "const"
  | .param => "param"

/-- Every kind. -/
def all : List Kind :=
  [.identifier, .name, .nullable, .union, .intersection, .array, .generic, .shape, .const, .param]

/-- The kind that a JSON value names. -/
def ofJson? (value : Json) : Option Kind := all.find? fun kind => value.isText kind.word

end Kind

/-- The result of reading an expression, or a part of one. -/
abbrev Decoded := Except DecodeError

namespace Decoded

/-- A fault of the value itself. -/
def fail {α : Type} (defect : Defect) : Decoded α := .error (.fault [] defect)

/-- The result for the part that `step` leads to, as one for the whole. -/
def under {α : Type} (step : Step) (result : Decoded α) : Decoded α :=
  result.mapError (DecodeError.under step)

/-- The value under a key that must be there. -/
def require (key : Text) (fields : Fields Json) : Decoded Json :=
  match Fields.get? fields key with
  | some value => .ok value
  | none => fail (.missing key)

/-- The text that a value must be. -/
def text : Json → Decoded Text
  | .str text => .ok text
  | _ => fail .notText

/-- The text under a key that must be there. -/
def requireText (key : Text) (fields : Fields Json) : Decoded Text := do
  under (.key key) (text (← require key fields))

/-- The text under a key; the empty text if there is no such key. -/
def optionalText (key : Text) (fields : Fields Json) : Decoded Text :=
  match Fields.get? fields key with
  | some value => under (.key key) (text value)
  | none => .ok []

/-- The result, if the value can be shown. -/
def showing {α : Type} (limit : Option Nat) (value : Json) (result : Decoded α) : Decoded α :=
  if value.prints limit then result else .error (.unprintable value)

/-- The texts that a list consists of, if it holds nothing else. -/
def texts? : List Json → Option (List Text)
  | [] => some []
  | .str text :: rest => (texts? rest).map (text :: ·)
  | _ :: _ => none

/-- The parts of a qualified name: a list of them, or one text in which backslashes stand between
them. Of the text, empty parts do not count. -/
def nameParts : Json → Decoded (List Text)
  | .str text => .ok ((Text.pieces '\\' text).filter fun part => !part.isEmpty)
  | .arr items =>
    match texts? items with
    | some parts => .ok parts
    | none => fail .notTexts
  | _ => fail .notTexts

end Decoded

namespace TypeExpr

open Decoded

mutual

/-- The expression that a JSON value writes, with at most so many digits in an integer that has to be
shown if a limit is given. -/
def read (limit : Option Nat) : Json → Decoded TypeExpr
  | .str name => .ok (.identifier name)
  | .obj fields =>
    match Fields.get? fields "kind" with
    | none => fail (.missing "kind")
    | some kind =>
      match Kind.ofJson? kind with
      | none => showing limit kind (fail (.unknownKind kind))
      | some .identifier => do return .identifier (← requireText "name" fields)
      | some .name => do
        return .qualified (← under (.key "parts") (nameParts (← require "parts" fields)))
      | some .nullable => do return .nullable (← childAt limit "type" fields)
      | some .union => do return .union (← membersAt limit "types" fields)
      | some .intersection => do return .intersection (← membersAt limit "types" fields)
      | some .array => do return .arrayOf (← childAt limit "type" fields)
      | some .generic => do
        let name ← requireText "name" fields
        return .generic name (← membersAt limit "args" fields)
      | some .shape => do return .shape (← shapeAt limit "items" fields)
      | some .const => do return .literal (← require "value" fields)
      | some .param => do
        let inner ← childAt limit "type" fields
        return .described inner (← optionalText "description" fields)
  | value => fail (.notExpression value.sortName)

/-- The expression under a key that must be there. -/
def childAt (limit : Option Nat) (key : Text) : List (Text × Json) → Decoded TypeExpr
  | [] => fail (.missing key)
  | (name, value) :: rest =>
    if name = key then under (.key key) (read limit value) else childAt limit key rest

/-- The list of expressions under a key that must be there. -/
def membersAt (limit : Option Nat) (key : Text) : List (Text × Json) → Decoded (List TypeExpr)
  | [] => fail (.missing key)
  | (name, value) :: rest =>
    if name = key then under (.key key) (membersOf limit value) else membersAt limit key rest

/-- The expressions that a list holds. -/
def membersOf (limit : Option Nat) : Json → Decoded (List TypeExpr)
  | .arr items => membersFrom limit 0 items
  | _ => fail .notList

/-- The expressions of a list from the item at `position` on. -/
def membersFrom (limit : Option Nat) (position : Nat) : List Json → Decoded (List TypeExpr)
  | [] => .ok []
  | item :: rest => do
    let member ← under (.index position) (read limit item)
    return member :: (← membersFrom limit (position + 1) rest)

/-- The fields of a shape under a key that must be there. -/
def shapeAt (limit : Option Nat) (key : Text) :
    List (Text × Json) → Decoded (List (ShapeField TypeExpr))
  | [] => fail (.missing key)
  | (name, value) :: rest =>
    if name = key then under (.key key) (shapeOf limit value) else shapeAt limit key rest

/-- The fields of a shape that a list holds. -/
def shapeOf (limit : Option Nat) : Json → Decoded (List (ShapeField TypeExpr))
  | .arr items => shapeFrom limit 0 items
  | _ => fail .notList

/-- The fields of a shape from the item at `position` on. -/
def shapeFrom (limit : Option Nat) (position : Nat) :
    List Json → Decoded (List (ShapeField TypeExpr))
  | [] => .ok []
  | item :: rest => do
    let field ← under (.index position) (shapeFieldOf limit item)
    return field :: (← shapeFrom limit (position + 1) rest)

/-- A field of a shape. Its key may be any value that can be shown, and `optional` any value at all,
which counts as a switch. -/
def shapeFieldOf (limit : Option Nat) : Json → Decoded (ShapeField TypeExpr)
  | .obj fields => do
    let key ← require "key" fields
    let name ← showing limit key (.ok key.asName)
    let type ← childAt limit "type" fields
    let optional := ((Fields.get? fields "optional").map Json.isOn).getD false
    return ⟨name, type, optional⟩
  | _ => fail .notObject

end

/-- The expression that a JSON value writes. -/
def ofJson (value : Json) : Decoded TypeExpr := read none value

variable (limit : Option Nat) (key : Text) (fields : Fields Json)

/-- The expression under a key is looked up, then decoded. -/
theorem childAt_eq :
    childAt limit key fields =
      require key fields >>= fun value => under (.key key) (read limit value) := by
  induction fields with
  | nil => rfl
  | cons field rest ih =>
    obtain ⟨name, value⟩ := field
    by_cases h : name = key
    · subst h
      simp [childAt, require, Fields.get?, bind, Except.bind]
    · simpa [childAt, require, Fields.get?, h] using ih

/-- The list of expressions under a key is looked up, then decoded. -/
theorem membersAt_eq :
    membersAt limit key fields =
      require key fields >>= fun value => under (.key key) (membersOf limit value) := by
  induction fields with
  | nil => rfl
  | cons field rest ih =>
    obtain ⟨name, value⟩ := field
    by_cases h : name = key
    · subst h
      simp [membersAt, require, Fields.get?, bind, Except.bind]
    · simpa [membersAt, require, Fields.get?, h] using ih

/-- The fields of a shape under a key are looked up, then decoded. -/
theorem shapeAt_eq :
    shapeAt limit key fields =
      require key fields >>= fun value => under (.key key) (shapeOf limit value) := by
  induction fields with
  | nil => rfl
  | cons field rest ih =>
    obtain ⟨name, value⟩ := field
    by_cases h : name = key
    · subst h
      simp [shapeAt, require, Fields.get?, bind, Except.bind]
    · simpa [shapeAt, require, Fields.get?, h] using ih

end TypeExpr

end Schemata

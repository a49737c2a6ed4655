import Schemata.TypeExpr.Decode
import Schemata.TypeExpr.Display

/-!
# Diagnostics and failures

A `Problem` is what resolution can say about a type, a `Diagnostic` a problem with the place where
it was met. A problem of severity `error` is only recorded: the type can be represented, but
should be written in another way. One of severity `fatal` ends the resolution with a `Failure`.

A `Failure` is any reason for which there is no answer: a problem that is fatal, a value that is no
type expression, an argument that is of no use where it is needed, or a machine that has not enough of
something.
-/

namespace Schemata

/-- How bad a problem is. -/
inductive Severity where
  /-- The type can be represented; resolution goes on. -/
  | error
  /-- The type cannot be represented; resolution ends. -/
  | fatal
  deriving DecidableEq

/-- The word for a severity. -/
def Severity.word : Severity → Text
  | .error => "error"
  | .fatal => "fatal"

/-- What can be said about a type. -/
inductive Problem where
  /-- `array` without arguments says nothing about its elements. -/
  | bareArray
  /-- `mixed` makes the other members of a union or an intersection pointless. -/
  | mixedMember
  /-- A name that is neither built in nor defined. -/
  | unknownIdentifier (name : Text)
  /-- A generic type that no schema can express. -/
  | unsupportedGeneric (name : Text)
  /-- A map whose keys are no strings. -/
  | mapKey (key : Text)
  | emptyUnion
  | emptyIntersection
  /-- A literal that is neither a string nor an integer. -/
  | unsupportedLiteral
  /-- An expression for which there is no rule. -/
  | noRule (expr : TypeExpr)
  /-- A problem in the words of whoever reports it. -/
  | custom (message : Text)

/-- The text of a problem. -/
def Problem.message : Problem → Text
  | .bareArray =>
    "Instead of 'array' use:\n" ++
      "'new stdClass()' for empty objects\n" ++
      "'array<string, mixed>' for non-empty objects\n" ++
      "'array<empty>' for empty lists\n" ++
      "'array<YourTypeHere>' for lists"
  | .mixedMember => "Unions and intersections should not contain 'mixed'"
  | .unknownIdentifier name => "Unable to resolve OpenAPI type for identifier '" ++ name ++ "'"
  | .unsupportedGeneric name => "'" ++ name ++ "' is not supported"
  | .mapKey key => "JSON objects can only be indexed by 'string' but got '" ++ key ++ "'"
  | .emptyUnion => "Empty union type"
  | .emptyIntersection => "Empty intersection type"
  | .unsupportedLiteral => "Constants are not supported"
  | .noRule expr =>
    "Unable to resolve OpenAPI type:\n" ++ expr.display ++ "\n" ++
      "Please open an issue with the error message and a link to your source code."
  | .custom message => message

/-- The integers that the text of a problem shows. -/
def Problem.integers : Problem → List Int
  | .noRule expr => expr.integers
  | _ => []

/-- A message after the place that it is about. -/
def located (place message : Text) : Text := place ++ ": " ++ message

/-- A problem with its severity and the place where it was met. -/
structure Diagnostic where
  severity : Severity
  context : Text
  problem : Problem

namespace Diagnostic

/-- The text of a diagnostic. -/
def message (d : Diagnostic) : Text := d.problem.message

/-- A diagnostic after its place. -/
def render (d : Diagnostic) : Text := located d.context d.message

end Diagnostic

/-- What every configuration has besides its settings, and no value can be assigned to. -/
inductive FixedAttribute where
  /-- What it is an instance of. -/
  | kind
  /-- The settings themselves, which only other settings can replace. -/
  | settings
  /-- The references to it that do not keep it alive. -/
  | references
  deriving DecidableEq

/-- An argument that is of no use where it is needed. -/
inductive Misuse where
  /-- Definitions that nothing can be looked up in. -/
  | definitions
  /-- A prefix for references that is no text. -/
  | refPrefix
  /-- A prefix of schema names that is no text. -/
  | schemaNamePrefix
  /-- A document, or its types, that are no object. -/
  | document
  /-- A configuration that is no object. -/
  | configuration
  /-- A configuration that sets what is no setting but fixed. -/
  | fixedAttribute (fixed : FixedAttribute)
  /-- An entry of a document that is no object. -/
  | entry
  deriving DecidableEq

/-- What a machine has only so much of. -/
inductive Resource where
  /-- Digits for an integer in a text. -/
  | digits
  /-- Calls within calls. -/
  | calls
  deriving DecidableEq

/-- A reason for which there is no answer. -/
inductive Failure where
  /-- A type that no schema represents. -/
  | unrepresentable (context : Text) (problem : Problem)
  /-- A value that is no type expression; where it is, and what is wrong with it. -/
  | malformed (path : Text) (defect : Defect)
  | misuse (misuse : Misuse)
  | exhausted (resource : Resource)

end Schemata

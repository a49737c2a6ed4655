import Schemata.Diagnostic
import Schemata.Json.Equality

/-!
# Configuration

How references to schemas are spelled, and whether every problem is fatal. The values are those of
the object that the configuration was read from, of whatever sort; one that is of no use shows
only where it is used.
-/

namespace Schemata

/-- A schema name without what it starts with, if anything is left of it: `NotificationsItem` of
`Notifications` is `Item`. -/
def schemaName (start name : Text) : Text :=
  if start.isPrefixOf name ∧ start.length < name.length then name.drop start.length else name

/-- The configuration of a resolver. -/
structure Config where
  /-- What is taken off the names of definitions in references. -/
  schemaNamePrefix : Json := .str ""
  /-- What references start with: where the schemas are in the document. -/
  refPrefix : Json := .str "#/components/schemas/"
  /-- A switch: whether recoverable problems are fatal. -/
  errorsAreFatal : Json := .bool false

namespace Config

/-- The configuration with the setting of that name changed. Other names change nothing. -/
def set (config : Config) (name : Text) (value : Json) : Config :=
  if name = "schema_name_prefix" then { config with schemaNamePrefix := value }
  else if name = "ref_prefix" then { config with refPrefix := value }
  else if name = "errors_are_fatal" then { config with errorsAreFatal := value }
  else config

/-- The configuration with some settings changed, in order. -/
def update (config : Config) (fields : Fields Json) : Config :=
  fields.foldl (fun config field => config.set field.1 field.2) config

/-- The fixed attribute of that name. -/
def fixedAttribute? (name : Text) : Option FixedAttribute :=
  if name = "__class__" then some .kind
  else if name = "__dict__" then some .settings
  else if name = "__weakref__" then some .references
  else none

/-- The configuration with a value assigned to that name. Three names are no settings but fixed, and
nothing can be assigned to them, except that an object replaces all the settings. -/
def assign (config : Config) (name : Text) (value : Json) : Except Misuse Config :=
  match fixedAttribute? name, value with
  | none, _ => .ok (config.set name value)
  | some .settings, .obj settings => .ok (update {} settings)
  | some fixed, _ => .error (.fixedAttribute fixed)

/-- The configuration that an object gives. -/
def ofFields (fields : Fields Json) : Except Misuse Config :=
  fields.foldlM (fun config field => config.assign field.1 field.2) {}

/-- The configuration that a JSON value gives. -/
def ofJson : Json → Except Failure Config
  | .obj fields => (ofFields fields).mapError .misuse
  | _ => .error (.misuse .configuration)

/-- The fields of a configuration. -/
def toFields (config : Config) : Fields Json :=
  [("schema_name_prefix", config.schemaNamePrefix), ("ref_prefix", config.refPrefix),
    ("errors_are_fatal", config.errorsAreFatal)]

/-- Whether two configurations have the same values. -/
def same (left right : Config) : Bool := Json.sameFields left.toFields right.toFields

/-- Whether recoverable problems are fatal. -/
def isStrict (config : Config) : Bool := config.errorsAreFatal.isOn

/-- The name of a schema in a reference. A prefix that is switched off takes nothing off the name.
-/
def schemaNameOf (config : Config) (name : Text) : Except Failure Text :=
  if config.schemaNamePrefix.isOn then
    match config.schemaNamePrefix with
    | .str start => .ok (schemaName start name)
    | _ => .error (.misuse .schemaNamePrefix)
  else .ok name

/-- The reference to the schema of a definition. -/
def reference (config : Config) (name : Text) : Except Failure Text := do
  let target ← config.schemaNameOf name
  match config.refPrefix with
  | .str start => return start ++ target
  | _ => throw (.misuse .refPrefix)

end Config

end Schemata

import Schemata.Machine
import Schemata.Schema.Keywords

/-!
# Documents of named types

A document is an object that names its `definitions` and gives, under `types`, an entry for each
type by name: the expression under `node`, and optionally a `default` and whether the type is that
of a request `parameter`. Converting a document answers with the schema object of each type, in
order; the first entry that fails ends it, and so does a machine that has not enough of something.
-/

namespace Schemata

namespace Document

/-- Where the entry of a type is. -/
def entryPath (name : Text) : Text := "$.types." ++ name

/-- What an entry has under `node`. An entry that is no object is asked all the same whether it
mentions the key, and is of no use if it does. -/
def nodeOf (name : Text) (entry : Json) : Except Failure Json :=
  match entry.mentions? "node", entry.field? "node" with
  | some true, some node => .ok node
  | some false, _ => .error (.malformed (entryPath name) (.missing "node"))
  | _, _ => .error (.misuse .entry)

/-- Whether an entry is that of a request parameter. -/
def isParameter (entry : Json) : Bool := (entry.field? "parameter").map Json.isOn |>.getD false

/-- The schema object of one entry. -/
def convertEntry (machine : Machine) (r : Resolver) (name : Text) (entry : Json) : Report Json :=
  match nodeOf name entry with
  | .error failure => Report.fail failure
  | .ok node => Report.interrupted (machine.overflow? r node) do
    let schema ← machine.schemaOf r (entryPath name ++ ".node") name node (entry.field? "default")
    return schema.serialize (isParameter entry)

/-- The schema objects of entries, by name. -/
def convertEntries (machine : Machine) (r : Resolver) : Fields Json → Report (Fields Json)
  | [] => pure []
  | (name, entry) :: rest => do
    let object ← convertEntry machine r name entry
    let others ← convertEntries machine r rest
    return (name, object) :: others

/-- The definitions of a document; none if it has no such key. -/
def definitions (fields : Fields Json) : Json := (Fields.get? fields "definitions").getD (.arr [])

/-- The entries of a document; none if it has no such key. -/
def types (fields : Fields Json) : Json := (Fields.get? fields "types").getD (.obj [])

/-- The schema objects of all types of a document, by name, on a machine. -/
def convertOn (machine : Machine) (config : Config) (strict : Bool) : Json → Report (Fields Json)
  | .obj fields =>
    match types fields with
    | .obj entries =>
      convertEntries machine { definitions := definitions fields, config, strict } entries
    | _ => Report.fail (.misuse .document)
  | _ => Report.fail (.misuse .document)

/-- The schema objects of all types of a document, by name, on a machine that has enough of
everything. -/
def convert : Config → Bool → Json → Report (Fields Json) := convertOn {}

end Document

end Schemata

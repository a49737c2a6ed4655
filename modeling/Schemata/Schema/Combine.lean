import Schemata.Schema.Equality

/-!
# Combining the members of a union or an intersection

The members are resolved schemas, none of them null. Repetitions are dropped, the allowed values of
members with one type are put together, and what is left decides the form:

* `Schema.deduplicate` — the first of each class of equal members.
* `Schema.mergeEnums` — one member for the allowed values of each type, unless a member without
  such a list has the type: then all its values are allowed.
* `Schema.combine` — the only member, or `allOf`, or `oneOf` if types tell the members apart, or
  `anyOf`.
-/

namespace Schemata

/-- How members are put together. -/
inductive Junction where
  | union
  | intersection
  deriving DecidableEq

namespace Schema

/-- The members without those that are the same as one before them. -/
def deduplicate (members : List Schema) : List Schema :=
  members.foldl (fun kept member => if kept.any (same member) then kept else kept ++ [member]) []

/-- The allowed values of members, by their type, in the order in which the types came first. -/
abbrev EnumGroups := List (Option Text × List Json)

/-- The groups with more values of a type. -/
def EnumGroups.add : EnumGroups → Option Text → List Json → EnumGroups
  | [], type, values => [(type, values)]
  | (known, found) :: rest, type, values =>
    if known = type then (known, found ++ values) :: rest
    else (known, found) :: EnumGroups.add rest type values

/-- The groups of the members that list their values. -/
def EnumGroups.ofMembers (members : List Schema) : EnumGroups :=
  members.foldl
    (fun groups member =>
      match member.enum with
      | some values => EnumGroups.add groups member.type values
      | none => groups)
    []

/-- The members that do not list their values, followed by one member for each type of the others
that none of the first has. -/
def mergeEnums (context : Text) (members : List Schema) : List Schema :=
  let plain := members.filter fun member => member.enum.isNone
  let groups := (EnumGroups.ofMembers members).filter fun group =>
    !plain.any fun member => member.type = group.1
  plain ++ groups.map fun group => { context, type := group.1, enum := some group.2 }

/-- The name of a type by which members are told apart: integers are numbers too. -/
def typeName (schema : Schema) : Option Text :=
  if schema.type = some "integer" then some "number" else schema.type

/-- Whether types tell the members apart: each has one, and no two have the same. -/
def areDistinguished (members : List Schema) : Bool :=
  members.all (fun member => member.typeName.isSome) && (members.map typeName).Nodup

/-- The schema of a union or an intersection; `nullable` says that null was a member. -/
def combine (context : Text) (members : List Schema) (nullable : Bool) (junction : Junction) :
    Schema :=
  match mergeEnums context (deduplicate members) with
  | [] => { context, nullable }
  | [member] => { member with nullable := nullable }
  | merged =>
    match junction with
    | .intersection => { context, nullable, allOf := some merged }
    | .union =>
      if areDistinguished merged then { context, nullable, oneOf := some merged }
      else { context, nullable, anyOf := some merged }

end Schema

end Schemata

import Schemata.Proofs.Unions

/-!
# What is left of null

A schema that says nothing about its values describes all of them. Resolution builds such a schema in
one place only: null is a member of a union or an intersection, it has a description of its own, and
when the flag is hoisted the description is left (`Schema.IsLeftover`). Null without a description
leaves nothing and is dropped.

* **the step** — of the members that are put together, those which say nothing are left of described
  nulls (`Schema.leftover_of_mem_merged`);
* **the run** — so a child of a resolved schema says what it describes, or it is the type of null, or
  it is such a rest in a list of `anyOf` or `allOf` (`Schema.Filled`). A member of `oneOf` has a type;
* **the expression** — there is a rest only if some union or intersection inside the expression has a
  described null for a member (`TypeExpr.labelsNull`).

`Resolver.resolve_leftovers` puts them together. A rest does harm: the list that it is a member of
describes every value (`Resolver.union_leaves_described_null`).
-/

namespace Schemata

/-! ## Expressions -/

namespace TypeExpr

mutual

/-- Whether the expression is null and nothing else, under whatever labels. -/
def isNullAlone : TypeExpr → Bool
  | .identifier name => name.unrooted = "null"
  | .qualified parts => (lastPart parts).unrooted = "null"
  | .nullable inner => isNullAlone inner
  | .described inner _ => isNullAlone inner
  | .union members => areNullAlone members
  | .intersection members => areNullAlone members
  | .arrayOf _ => false
  | .generic _ _ => false
  | .shape _ => false
  | .literal _ => false

/-- Whether each of some expressions is null and nothing else. -/
def areNullAlone : List TypeExpr → Bool
  | [] => true
  | member :: rest => isNullAlone member && areNullAlone rest

end

mutual

/-- Whether a description in the expression may come to its root. -/
def isDescribed : TypeExpr → Bool
  | .described _ _ => true
  | .nullable inner => isDescribed inner
  | .union members => isAnyDescribed members
  | .intersection members => isAnyDescribed members
  | .identifier _ => false
  | .qualified _ => false
  | .arrayOf _ => false
  | .generic _ _ => false
  | .shape _ => false
  | .literal _ => false

/-- Whether a description in one of some expressions may come to its root. -/
def isAnyDescribed : List TypeExpr → Bool
  | [] => false
  | member :: rest => isDescribed member || isAnyDescribed rest

end

mutual

/-- Whether null has a description of its own where it is a member, anywhere in the expression. -/
def labelsNull : TypeExpr → Bool
  | .union members => anyLabelsNull members ||
      members.any fun member => member.isNullAlone && member.isDescribed
  | .intersection members => anyLabelsNull members ||
      members.any fun member => member.isNullAlone && member.isDescribed
  | .nullable inner => labelsNull inner
  | .described inner _ => labelsNull inner
  | .arrayOf element => labelsNull element
  | .generic _ args => anyLabelsNull args
  | .shape fields => fieldsLabelNull fields
  | .identifier _ => false
  | .qualified _ => false
  | .literal _ => false

/-- Whether null has a description of its own as a member in one of some expressions. -/
def anyLabelsNull : List TypeExpr → Bool
  | [] => false
  | member :: rest => labelsNull member || anyLabelsNull rest

/-- Whether null has a description of its own as a member in the type of one of some fields. -/
def fieldsLabelNull : List (ShapeField TypeExpr) → Bool
  | [] => false
  | ⟨_, type, _⟩ :: rest => labelsNull type || fieldsLabelNull rest

end

theorem areNullAlone_iff {members : List TypeExpr} :
    areNullAlone members = true ↔ ∀ member ∈ members, member.isNullAlone = true := by
  induction members with
  | nil => simp [areNullAlone]
  | cons member rest ih => rw [areNullAlone, Bool.and_eq_true, List.forall_mem_cons, ih]

theorem isAnyDescribed_iff {members : List TypeExpr} :
    isAnyDescribed members = true ↔ ∃ member ∈ members, member.isDescribed = true := by
  induction members with
  | nil => simp [isAnyDescribed]
  | cons member rest ih => rw [isAnyDescribed, Bool.or_eq_true, List.exists_mem_cons_iff, ih]

theorem anyLabelsNull_iff {members : List TypeExpr} :
    anyLabelsNull members = true ↔ ∃ member ∈ members, member.labelsNull = true := by
  induction members with
  | nil => simp [anyLabelsNull]
  | cons member rest ih => rw [anyLabelsNull, Bool.or_eq_true, List.exists_mem_cons_iff, ih]

theorem fieldsLabelNull_iff {fields : List (ShapeField TypeExpr)} :
    fieldsLabelNull fields = true ↔ ∃ field ∈ fields, field.type.labelsNull = true := by
  induction fields with
  | nil => simp [fieldsLabelNull]
  | cons field rest ih => rw [fieldsLabelNull, Bool.or_eq_true, List.exists_mem_cons_iff, ih]

/-- The members of a list with a described null in it, or with a member that has one inside. -/
def labelsNullAmong (members : List TypeExpr) : Prop :=
  ∃ member ∈ members, member.labelsNull = true ∨
    member.isNullAlone = true ∧ member.isDescribed = true

theorem labelsNull_union_iff {members : List TypeExpr} :
    (TypeExpr.union members).labelsNull = true ↔ labelsNullAmong members := by
  rw [labelsNull, Bool.or_eq_true, anyLabelsNull_iff, List.any_eq_true, ← exists_or]
  refine exists_congr fun member => ?_
  rw [Bool.and_eq_true, ← and_or_left]

theorem labelsNull_intersection_iff {members : List TypeExpr} :
    (TypeExpr.intersection members).labelsNull = true ↔ labelsNullAmong members := by
  rw [labelsNull, ← labelsNull_union_iff, labelsNull]

end TypeExpr

/-! ## One step -/

namespace Schema

/-- What is left of a described null without null: a description, and nothing that it describes. -/
def IsLeftover (schema : Schema) : Prop :=
  ∃ context description, schema = { context, description := some description }

/-- The member is in a list that does not tell its members apart. -/
def Joins (schema member : Schema) : Prop :=
  (∃ members ∈ schema.anyOf, member ∈ members) ∨ ∃ members ∈ schema.allOf, member ∈ members

/-- **Of the members that are put together, those which say nothing are left of described nulls.** -/
theorem leftover_of_mem_merged {context : Text} {schemas : List Schema}
    (h : ∀ schema ∈ schemas, schema.Regular) {member : Schema}
    (hmember : member ∈ mergedMembers context (Members.gather schemas).schemas)
    (hfree : member.isConstrained = false) :
    member.IsLeftover ∧
      ∃ schema ∈ schemas, schema.isConstrained = false ∧ schema.description.isSome = true := by
  rcases mem_mergeEnums_iff.mp hmember with ⟨hkept, -⟩ | ⟨type, hopen, rfl⟩
  · obtain ⟨schema, hschema, hrest, rfl⟩ := (mem_gather_iff h).mp (mem_of_mem_deduplicate hkept)
    have hschemaFree : schema.isConstrained = false := hfree
    have hdescription : schema.description.isSome = true :=
      hrest.resolve_left (Bool.eq_false_iff.mp hschemaFree)
    refine ⟨?_, schema, hschema, hschemaFree, hdescription⟩
    obtain ⟨context, description, rfl⟩ := (h schema hschema).null hschemaFree
    obtain ⟨text, rfl⟩ := Option.isSome_iff_exists.mp hdescription
    exact ⟨context, text, rfl⟩
  · -- a pool has the type of the members that it was made of
    obtain ⟨⟨kept, hkept, hlisted, rfl⟩, -⟩ := mem_openTypes.mp hopen
    obtain ⟨values, hvalues⟩ := Option.isSome_iff_exists.mp hlisted
    have hshape := wellShaped_of_mem_gather h kept (mem_of_mem_deduplicate hkept)
    obtain ⟨-, ⟨name, -, htype, -⟩, -⟩ := hshape.enum values hvalues
    simp [isConstrained, pooled, htype] at hfree

/-- A combination says nothing only if none of its members does. -/
theorem not_isConstrained_of_combine {context : Text} {schemas : List Schema} {junction : Junction}
    (h : ∀ schema ∈ schemas, schema.Regular)
    (hfree : (combine context (Members.gather schemas).schemas (Members.gather schemas).nullable
      junction).isConstrained = false) :
    ∀ schema ∈ schemas, schema.isConstrained = false := by
  intro schema hschema
  by_contra hconstrained
  obtain ⟨merged, hmerged, hleft⟩ := exists_constrained_merged context h
    ⟨schema, hschema, by simpa using hconstrained⟩
  rcases combine_cases context (Members.gather schemas).schemas (Members.gather schemas).nullable
    junction with ⟨hnone, -⟩ | ⟨member, -, hsingle, heq⟩ |
      ⟨-, ⟨-, heq⟩ | ⟨-, -, heq⟩ | ⟨-, -, heq⟩⟩
  · rw [hnone] at hmerged
    exact absurd hmerged List.not_mem_nil
  · rw [hsingle, List.mem_singleton] at hmerged
    subst hmerged
    rw [heq] at hfree
    exact Bool.false_ne_true (hfree.symm.trans hleft)
  all_goals simp [heq, isConstrained] at hfree

/-- The description of a combination is that of one of its members. -/
theorem exists_description_of_combine {context : Text} {schemas : List Schema}
    {junction : Junction}
    (h : (combine context (Members.gather schemas).schemas (Members.gather schemas).nullable
      junction).description.isSome = true) :
    ∃ schema ∈ schemas, schema.description.isSome = true := by
  rcases combine_cases context (Members.gather schemas).schemas (Members.gather schemas).nullable
    junction with ⟨-, heq⟩ | ⟨member, hmember, -, heq⟩ |
      ⟨-, ⟨-, heq⟩ | ⟨-, -, heq⟩ | ⟨-, -, heq⟩⟩ <;> rw [heq] at h
  · exact absurd h (by simp)
  · rcases mem_merged_cases hmember with ⟨schema, hschema, rfl⟩ | ⟨type, -, rfl⟩
    · exact ⟨schema, hschema, h⟩
    · exact absurd h (by simp [pooled])
  all_goals exact absurd h (by simp)

/-! ## All steps -/

/-- The children of a schema say what they describe or describe null; if `rests` is the case then
members of `anyOf` and `allOf` may also be left of null. -/
def Filled (rests : Prop) (schema : Schema) : Prop :=
  ∀ child ∈ schema.children, child.isConstrained = true ∨ child.IsNull ∨
    rests ∧ child.IsLeftover ∧ schema.Joins child

theorem Filled.mono {rests more : Prop} (himp : rests → more) {schema : Schema}
    (h : schema.Filled rests) : schema.Filled more := by
  intro child hchild
  rcases h child hchild with hconstrained | hnull | ⟨hrests, hleftover⟩
  · exact .inl hconstrained
  · exact .inr (.inl hnull)
  · exact .inr (.inr ⟨himp hrests, hleftover⟩)

theorem filled_of_no_children {rests : Prop} {schema : Schema} (h : schema.children = []) :
    ∀ part, Subtree part schema → part.Filled rests :=
  throughout_of_no_children (fun _ hchild => absurd (h ▸ hchild) List.not_mem_nil) h

/-- A label and the flag do not count for the children. -/
theorem filled_relabel {rests : Prop} {schema : Schema} (context : Text) (nullable : Bool)
    (description : Option Text) (h : ∀ part, Subtree part schema → part.Filled rests) :
    ∀ part, Subtree part { schema with context, nullable, description } → part.Filled rests := by
  obtain ⟨hroot, hchildren⟩ := throughout_iff.mp h
  exact throughout_iff.mpr ⟨hroot, hchildren⟩

/-- Children that were resolved say what they describe, or describe null. -/
theorem filled_of_children {rests : Prop} {schema : Schema}
    (h : ∀ child ∈ schema.children, child.Regular ∧ ∀ part, Subtree part child → part.Filled rests) :
    ∀ part, Subtree part schema → part.Filled rests := by
  refine throughout_iff.mpr ⟨fun child hchild => ?_, fun child hchild => (h child hchild).2⟩
  cases hconstrained : child.isConstrained with
  | true => exact .inl rfl
  | false => exact .inr (.inl ((h child hchild).1.null hconstrained))

/-- Members that are put together are the only children of a list of them. -/
theorem filled_of_merged {rests : Prop} {schema : Schema} {merged : List Schema}
    (hchildren : schema.children = merged)
    (hmembers : ∀ member ∈ merged,
      member.isConstrained = true ∨ rests ∧ member.IsLeftover ∧ schema.Joins member)
    (hparts : ∀ member ∈ merged, ∀ part, Subtree part member → part.Filled rests) :
    ∀ part, Subtree part schema → part.Filled rests := by
  subst hchildren
  exact throughout_iff.mpr ⟨fun child hchild => (hmembers child hchild).imp_right .inr, hparts⟩

theorem filled_combine {rests : Prop} {context : Text} {schemas : List Schema} {junction : Junction}
    (hregular : ∀ schema ∈ schemas, schema.Regular)
    (hparts : ∀ schema ∈ schemas, ∀ part, Subtree part schema → part.Filled rests)
    (hrests : ∀ schema ∈ schemas, schema.isConstrained = false →
      schema.description.isSome = true → rests) :
    ∀ part, Subtree part (combine context (Members.gather schemas).schemas
      (Members.gather schemas).nullable junction) → part.Filled rests := by
  have hmerged : ∀ member ∈ mergedMembers context (Members.gather schemas).schemas,
      ∀ part, Subtree part member → part.Filled rests := by
    intro member hmember
    rcases mem_merged_cases hmember with ⟨schema, hschema, rfl⟩ | ⟨type, -, rfl⟩
    · exact filled_relabel _ _ _ (hparts schema hschema)
    · exact filled_of_no_children rfl
  have hleft : ∀ member ∈ mergedMembers context (Members.gather schemas).schemas,
      member.isConstrained = true ∨ rests ∧ member.IsLeftover := by
    intro member hmember
    cases hconstrained : member.isConstrained with
    | true => exact .inl rfl
    | false =>
        obtain ⟨hleftover, schema, hschema, hfree, hdescription⟩ :=
          leftover_of_mem_merged hregular hmember hconstrained
        exact .inr ⟨hrests schema hschema hfree hdescription, hleftover⟩
  rcases combine_cases context (Members.gather schemas).schemas (Members.gather schemas).nullable
    junction with ⟨-, heq⟩ | ⟨member, hmember, -, heq⟩ |
      ⟨-, ⟨-, heq⟩ | ⟨-, htold, heq⟩ | ⟨-, -, heq⟩⟩ <;> rw [heq]
  · exact filled_of_no_children rfl
  · exact filled_relabel _ _ _ (hmerged member hmember)
  · refine filled_of_merged (by simp [children]) (fun member hmember => ?_) hmerged
    refine (hleft member hmember).imp_right fun hrest => ?_
    exact ⟨hrest.1, hrest.2, .inr ⟨_, rfl, hmember⟩⟩
  · refine filled_of_merged (by simp [children]) (fun member hmember => .inl ?_) hmerged
    -- a name by which it is told apart is that of a type
    have hnamed := (areDistinguished_iff.mp htold).1 member hmember
    cases htype : member.type with
    | none =>
        rw [typeName_of_not_integer (by simp [htype]), htype] at hnamed
        exact absurd hnamed (by simp)
    | some type => simp [isConstrained, htype]
  · refine filled_of_merged (by simp [children]) (fun member hmember => ?_) hmerged
    refine (hleft member hmember).imp_right fun hrest => ?_
    exact ⟨hrest.1, hrest.2, .inl ⟨_, rfl, hmember⟩⟩

/-- A part of a schema is its root, or a child of a part. -/
theorem Subtree.eq_or_child {part schema : Schema} (h : Subtree part schema) :
    part = schema ∨ ∃ parent, Subtree parent schema ∧ part ∈ parent.children := by
  induction h with
  | refl => exact .inl rfl
  | @child child schema hchild hpart ih =>
      right
      rcases ih with rfl | ⟨parent, hparent, hmem⟩
      · exact ⟨schema, .refl schema, hchild⟩
      · exact ⟨parent, .child hchild hparent, hmem⟩

end Schema

namespace Resolver

open Schema

variable {r : Resolver} {context : Text} {expr : TypeExpr} {schema : Schema}

theorem regular_of_zip {members : List TypeExpr} {schemas : List Schema}
    (hlength : members.length = schemas.length)
    (hall : ∀ pair ∈ members.zip schemas, r.Resolves context pair.1 pair.2) :
    ∀ schema ∈ schemas, schema.Regular := by
  intro schema hschema
  obtain ⟨member, hpair⟩ := exists_part_of_mem hlength hschema
  exact (hall _ hpair).regular

/-- A schema that says nothing comes from an expression that is null alone. -/
theorem Resolves.isNullAlone (h : r.Resolves context expr schema)
    (hfree : schema.isConstrained = false) : expr.isNullAlone = true := by
  induction h with
  | @builtin _ name builtin _ hbuiltin =>
      have hnull : builtin = .null := by
        cases builtin <;> simp [Builtin.schema, isConstrained, int64] at hfree
        rfl
      have hname := Builtin.name_of_ofName? hbuiltin
      rw [TypeExpr.isNullAlone, ← hname, hnull]
      rfl
  | qualified _ ih => exact ih hfree
  | nullable _ ih => exact ih hfree
  | described _ ih => exact ih hfree
  | literal hschema => simp [isConstrained_of_literals (ofLiterals?_singleton hschema)] at hfree
  | literals hschema => simp [isConstrained_of_literals hschema] at hfree
  | union _ _ _ hlength hall ih | intersection _ _ hlength hall ih =>
      have hmembers := not_isConstrained_of_combine (regular_of_zip hlength hall) hfree
      rw [TypeExpr.isNullAlone, TypeExpr.areNullAlone_iff]
      intro member hmember
      obtain ⟨part, hpair⟩ := exists_schema_of_mem hlength hmember
      exact ih _ hpair (hmembers part (List.of_mem_zip hpair).2)
  | _ => simp [isConstrained, ofShape, int64] at hfree

/-- A described schema comes from a description in the expression. -/
theorem Resolves.isDescribed (h : r.Resolves context expr schema)
    (hdescription : schema.description.isSome = true) : expr.isDescribed = true := by
  induction h with
  | @builtin _ _ builtin _ _ =>
      have hnone : builtin.schema.description = none := by cases builtin <;> rfl
      exact absurd hdescription (by simp [hnone])
  | qualified _ ih => exact ih hdescription
  | nullable _ ih => exact ih hdescription
  | described _ _ => rw [TypeExpr.isDescribed]
  | literal hschema =>
      rw [eq_of_literals (ofLiterals?_singleton hschema)] at hdescription
      exact absurd hdescription Bool.false_ne_true
  | literals hschema =>
      rw [eq_of_literals hschema] at hdescription
      exact absurd hdescription Bool.false_ne_true
  | union _ _ _ hlength _ ih | intersection _ _ hlength _ ih =>
      obtain ⟨part, hpart, hsome⟩ := exists_description_of_combine hdescription
      obtain ⟨member, hpair⟩ := exists_part_of_mem hlength hpart
      rw [TypeExpr.isDescribed, TypeExpr.isAnyDescribed_iff]
      exact ⟨member, (List.of_mem_zip hpair).1, ih _ hpair hsome⟩
  | _ => simp [ofShape, int64] at hdescription

/-- The step of the induction at a union or an intersection. -/
theorem filled_of_members {members : List TypeExpr} {schemas : List Schema} {junction : Junction}
    (hlength : members.length = schemas.length)
    (hall : ∀ pair ∈ members.zip schemas, r.Resolves context pair.1 pair.2)
    (ih : ∀ pair ∈ members.zip schemas, ∀ part, Subtree part pair.2 →
      part.Filled (pair.1.labelsNull = true)) :
    ∀ part, Subtree part (Schema.combine context (Members.gather schemas).schemas
      (Members.gather schemas).nullable junction) →
        part.Filled (TypeExpr.labelsNullAmong members) := by
  refine filled_combine (regular_of_zip hlength hall) ?_ ?_
  · intro schema hschema part hpart
    obtain ⟨member, hpair⟩ := exists_part_of_mem hlength hschema
    exact (ih _ hpair part hpart).mono fun hlabels =>
      ⟨member, (List.of_mem_zip hpair).1, .inl hlabels⟩
  · intro schema hschema hfree hdescription
    obtain ⟨member, hpair⟩ := exists_part_of_mem hlength hschema
    exact ⟨member, (List.of_mem_zip hpair).1,
      .inr ⟨(hall _ hpair).isNullAlone hfree, (hall _ hpair).isDescribed hdescription⟩⟩

theorem Resolves.filled (h : r.Resolves context expr schema) :
    ∀ part, Subtree part schema → part.Filled (expr.labelsNull = true) := by
  induction h with
  | @builtin _ _ builtin _ _ => exact filled_of_no_children (by cases builtin <;> rfl)
  | reference _ _ | emptyList _ _ | range => exact filled_of_no_children rfl
  | qualified _ ih =>
      intro part hpart
      refine (ih part hpart).mono fun hlabels => absurd hlabels ?_
      rw [TypeExpr.labelsNull]
      exact Bool.false_ne_true
  | nullable _ ih | described _ ih =>
      rw [TypeExpr.labelsNull]
      exact filled_relabel _ _ _ ih
  | arrayOf helement ih =>
      refine filled_of_children fun child hchild => ?_
      obtain rfl : _ = child := by simpa [mem_children] using hchild
      rw [TypeExpr.labelsNull]
      exact ⟨helement.regular, ih⟩
  | list _ _ hargument ih =>
      refine filled_of_children fun child hchild => ?_
      obtain rfl : _ = child := by simpa [mem_children] using hchild
      refine ⟨hargument.regular, fun part hpart => (ih part hpart).mono fun hlabels => ?_⟩
      rw [TypeExpr.labelsNull, TypeExpr.anyLabelsNull_iff]
      exact ⟨_, List.mem_cons_self, hlabels⟩
  | map helement ih =>
      refine filled_of_children fun child hchild => ?_
      obtain rfl : _ = child := by simpa [mem_children] using hchild
      refine ⟨helement.regular, fun part hpart => (ih part hpart).mono fun hlabels => ?_⟩
      rw [TypeExpr.labelsNull, TypeExpr.anyLabelsNull_iff]
      exact ⟨_, List.mem_cons_of_mem _ List.mem_cons_self, hlabels⟩
  | shape hlength hall ih =>
      refine filled_of_children fun child hchild => ?_
      obtain ⟨field, hpair⟩ := exists_field_of_child hlength hchild
      refine ⟨(hall _ hpair).regular, fun part hpart => (ih _ hpair part hpart).mono ?_⟩
      intro hlabels
      rw [TypeExpr.labelsNull, TypeExpr.fieldsLabelNull_iff]
      exact ⟨field, (List.of_mem_zip hpair).1, hlabels⟩
  | literal hschema =>
      rw [eq_of_literals (ofLiterals?_singleton hschema)]
      exact filled_of_no_children rfl
  | literals hschema =>
      rw [eq_of_literals hschema]
      exact filled_of_no_children rfl
  | union _ _ _ hlength hall ih =>
      rw [TypeExpr.labelsNull_union_iff]
      exact filled_of_members hlength hall ih
  | intersection _ _ hlength hall ih =>
      rw [TypeExpr.labelsNull_intersection_iff]
      exact filled_of_members hlength hall ih

/-- **Every part of what resolution returns says what it describes, or it is the type of null, or it
is left of a described null** that the expression has for a member of a union or an intersection. What
is left is a member of `anyOf` or `allOf`. -/
theorem resolve_leftovers (h : (r.resolve context expr).outcome = .ok schema) :
    ∀ part, Subtree part schema → part.isConstrained = true ∨ part.IsNull ∨
      expr.labelsNull = true ∧ part.IsLeftover ∧
        ∃ parent, Subtree parent schema ∧ parent.Joins part := by
  intro part hpart
  have hresolves := resolves_of_ok h
  rcases hpart.eq_or_child with rfl | ⟨parent, hparent, hchild⟩
  · cases hconstrained : part.isConstrained with
    | true => exact .inl rfl
    | false => exact .inr (.inl (hresolves.regular.null hconstrained))
  · rcases hresolves.filled parent hparent part hchild with hconstrained | hnull |
      ⟨hlabels, hleftover, hjoins⟩
    · exact .inl hconstrained
    · exact .inr (.inl hnull)
    · exact .inr (.inr ⟨hlabels, hleftover, parent, hparent, hjoins⟩)

/-- Null in four places, none of them described where it is a member. -/
theorem no_leftovers_of_shape :
    let expr : TypeExpr := .shape
      [⟨"id", .union [.nullable (.identifier "null"), .identifier "int", .identifier "true"], false⟩,
        ⟨"note", .described (.union [.qualified ["null"], .identifier "null"]) "nothing", true⟩]
    ∃ schema, (({} : Resolver).resolve "$" expr).outcome = .ok schema ∧
      ∀ part, Subtree part schema → part.isConstrained = true ∨ part.IsNull := by
  intro expr
  have hends : ∃ schema, (({} : Resolver).resolve "$" expr).outcome = .ok schema := ⟨_, rfl⟩
  obtain ⟨schema, h⟩ := hends
  refine ⟨schema, h, fun part hpart => ?_⟩
  rcases resolve_leftovers h part hpart with hconstrained | hnull | ⟨hlabels, -⟩
  · exact .inl hconstrained
  · exact .inr hnull
  · exact absurd hlabels (by decide)

/-- A described null beside a type leaves a member that describes every value. -/
theorem union_leaves_described_null :
    ∃ schema part, (({} : Resolver).resolve "$" (.union
        [.described (.identifier "null") "nothing", .identifier "string"])).outcome = .ok schema ∧
      Subtree part schema ∧ schema.Joins part ∧ part.isConstrained = false ∧
      part.nullable = false ∧ ∀ refs value, value ∈ part.values refs := by
  let part : Schema := { context := "$", description := some "nothing" }
  let schema : Schema :=
    { context := "$", nullable := true, anyOf := some [part, { context := "$", type := some "string" }] }
  refine ⟨schema, part, rfl, ?_, ?_, rfl, rfl, fun refs value => ?_⟩
  · exact .child (by simp [mem_children, schema]) (.refl part)
  · exact .inl ⟨_, rfl, List.mem_cons_self⟩
  · exact (mem_values_of_not_nullable rfl).mpr (admits_empty _ _ _)

end Resolver

end Schemata

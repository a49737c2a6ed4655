import Schemata.Proofs.Combination
import Schemata.Proofs.Names
import Schemata.Proofs.Resolution

/-!
# Invariants of resolved schemas

An invariant is a property of the root of a schema that every way of building one preserves
(`Schema.Invariant`). What resolution returns has it at the root and everywhere inside
(`Resolver.Resolves.throughout`): the induction over the rules is done here, once. A property of
references that depends on which there are is preserved by all else (`Schema.Preserved`); it holds
throughout if it holds of the references to the names in the expression
(`Resolver.Resolves.throughout_of_references`).

The only step with an argument is the combination. Its children are members that were resolved, with
null taken off, or pools of allowed values that are made for it
(`Schema.Invariant.throughout_combine`).
-/

namespace Schemata

/-! ## Fields of a list -/

namespace Fields

variable {α : Type}

theorem insert_of_not_mem {fields : Fields α} {key : Text} (h : key ∉ keys fields) (value : α) :
    insert fields key value = fields ++ [(key, value)] := by
  induction fields with
  | nil => rfl
  | cons field fields ih =>
      obtain ⟨name, old⟩ := field
      have hname : name ≠ key := fun heq => h (heq ▸ List.mem_cons_self)
      rw [insert, if_neg hname, ih fun hmem => h (List.mem_cons_of_mem _ hmem), List.cons_append]

theorem mem_insert {fields : Fields α} {key : Text} {value : α} {field : Text × α}
    (h : field ∈ insert fields key value) : field ∈ fields ∨ field = (key, value) := by
  induction fields with
  | nil => exact .inr (List.mem_singleton.mp h)
  | cons first rest ih =>
      obtain ⟨name, old⟩ := first
      by_cases hname : name = key
      · rw [insert, if_pos hname] at h
        rcases List.mem_cons.mp h with rfl | h
        · exact .inr (by rw [hname])
        · exact .inl (List.mem_cons_of_mem _ h)
      · rw [insert, if_neg hname] at h
        rcases List.mem_cons.mp h with rfl | h
        · exact .inl List.mem_cons_self
        · exact (ih h).imp_left (List.mem_cons_of_mem _)

theorem mem_keys_insert {fields : Fields α} {key name : Text} {value : α} :
    name ∈ keys (insert fields key value) ↔ name ∈ keys fields ∨ name = key := by
  by_cases h : key ∈ keys fields
  · rw [keys_insert_of_mem h]
    exact ⟨.inl, fun hname => hname.elim id fun heq => heq ▸ h⟩
  · simp [keys_insert_of_not_mem h]

theorem ofList_concat (pairs : List (Text × α)) (last : Text × α) :
    ofList (pairs ++ [last]) = insert (ofList pairs) last.1 last.2 := by
  rw [ofList, List.foldl_append]
  rfl

/-- The fields of a list are among its pairs. -/
theorem mem_of_mem_ofList {pairs : List (Text × α)} {field : Text × α} (h : field ∈ ofList pairs) :
    field ∈ pairs := by
  induction pairs using List.reverseRecOn with
  | nil => exact h
  | append_singleton pairs last ih =>
      rw [ofList_concat] at h
      rcases mem_insert h with h | rfl
      · exact List.mem_append_left _ (ih h)
      · exact List.mem_append_right _ (List.mem_singleton_self _)

/-- The names of the fields of a list are those of its pairs. -/
theorem mem_keys_ofList {pairs : List (Text × α)} {name : Text} :
    name ∈ keys (ofList pairs) ↔ name ∈ pairs.map Prod.fst := by
  induction pairs using List.reverseRecOn with
  | nil => simp [ofList, keys]
  | append_singleton pairs last ih =>
      rw [ofList_concat, mem_keys_insert, ih]
      simp

/-- A list in which no name comes again is kept as it is. -/
theorem ofList_of_nodup {pairs : List (Text × α)} (h : (pairs.map Prod.fst).Nodup) :
    ofList pairs = pairs := by
  induction pairs using List.reverseRecOn with
  | nil => rfl
  | append_singleton pairs last ih =>
      rw [List.map_append, List.nodup_append] at h
      obtain ⟨hpairs, -, hnew⟩ := h
      rw [ofList_concat, ih hpairs, insert_of_not_mem]
      intro hmem
      exact hnew _ hmem _ (List.mem_singleton_self _) rfl

end Fields

/-! ## Invariants -/

namespace Schema

/-- The members that are merged are schemas without null, or pools. -/
theorem mem_merged_cases {context : Text} {schemas : List Schema} {member : Schema}
    (h : member ∈ mergedMembers context (Members.gather schemas).schemas) :
    (∃ schema ∈ schemas, member = { schema with nullable := false }) ∨
      ∃ type ∈ openTypes (deduplicate (Members.gather schemas).schemas),
        member = pooled context (deduplicate (Members.gather schemas).schemas) type := by
  rcases mem_mergeEnums_iff.mp h with ⟨hkept, -⟩ | hpooled
  · obtain ⟨schema, hschema, rfl, -⟩ := Members.mem_gather.mp (mem_of_mem_deduplicate hkept)
    exact .inl ⟨schema, hschema, rfl⟩
  · exact .inr hpooled

/-- A property of roots that every way of building a schema preserves, references left aside. -/
structure Preserved (P : Schema → Prop) : Prop where
  relabel : ∀ {schema : Schema} (context : Text) (nullable : Bool) (description : Option Text),
    P schema → P { schema with context, nullable, description }
  builtin : ∀ builtin : Builtin, P builtin.schema
  emptyList : ∀ context : Text, P { context, type := some "array", maxItems := some 0 }
  list : ∀ (context : Text) (items : Schema),
    P { context, type := some "array", items := some items }
  map : ∀ (context : Text) (values : Schema),
    P { context, type := some "object", additional := some (.schema values) }
  range : ∀ (context : Text) (minimum maximum : Option Int),
    P { int64 with context, minimum, maximum }
  shape : ∀ (context : Text) (fields : List (ShapeField TypeExpr)) (schemas : List Schema),
    fields.length = schemas.length →
    P (ofShape context fields ((fields.map ShapeField.key).zip schemas))
  texts : ∀ (context : Text) (texts : List Text), texts ≠ [] → P (ofTextLiterals context texts)
  ints : ∀ (context : Text) (values : List Int), values ≠ [] → P (ofIntLiterals context values)
  pooled : ∀ (context : Text) (members : List Schema) (type : Option Text),
    (∀ member ∈ members, P member) → type ∈ openTypes members → P (pooled context members type)
  null : ∀ (context : Text) (nullable : Bool), P { context, nullable }
  allOf : ∀ (context : Text) (nullable : Bool) (schemas : List Schema),
    2 ≤ (mergedMembers context (Members.gather schemas).schemas).length →
    P { context, nullable, allOf := some (mergedMembers context (Members.gather schemas).schemas) }
  oneOf : ∀ (context : Text) (nullable : Bool) (schemas : List Schema),
    2 ≤ (mergedMembers context (Members.gather schemas).schemas).length →
    areDistinguished (mergedMembers context (Members.gather schemas).schemas) = true →
    P { context, nullable, oneOf := some (mergedMembers context (Members.gather schemas).schemas) }
  anyOf : ∀ (context : Text) (nullable : Bool) (schemas : List Schema),
    2 ≤ (mergedMembers context (Members.gather schemas).schemas).length →
    areDistinguished (mergedMembers context (Members.gather schemas).schemas) = false →
    P { context, nullable, anyOf := some (mergedMembers context (Members.gather schemas).schemas) }

/-- A property of roots that every way of building a schema preserves. -/
structure Invariant (P : Schema → Prop) : Prop extends Preserved P where
  reference : ∀ context target : Text, P { context, ref := some target }

variable {P : Schema → Prop}

/-- Another label, or null, is a matter of the root. -/
theorem Preserved.throughout_relabel (preserved : Preserved P) {schema : Schema} (context : Text)
    (nullable : Bool) (description : Option Text) (h : ∀ part, Subtree part schema → P part) :
    ∀ part, Subtree part { schema with context, nullable, description } → P part := by
  obtain ⟨hroot, hchildren⟩ := throughout_iff.mp h
  exact throughout_iff.mpr ⟨preserved.relabel _ _ _ hroot, hchildren⟩

theorem throughout_of_no_children {schema : Schema} (hroot : P schema)
    (hnone : schema.children = []) : ∀ part, Subtree part schema → P part :=
  throughout_iff.mpr ⟨hroot, fun _ hchild => absurd (hnone ▸ hchild) List.not_mem_nil⟩

theorem throughout_of_texts {context : Text} {texts : List Text}
    (hroot : P (ofTextLiterals context texts)) :
    ∀ part, Subtree part (ofTextLiterals context texts) → P part := by
  refine throughout_of_no_children hroot ?_
  unfold ofTextLiterals
  split <;> rfl

/-- The pools are made of what the members list. -/
theorem Preserved.throughout_merged (preserved : Preserved P) (context : Text)
    {schemas : List Schema} (h : ∀ schema ∈ schemas, ∀ part, Subtree part schema → P part) :
    ∀ member ∈ mergedMembers context (Members.gather schemas).schemas,
      ∀ part, Subtree part member → P part := by
  intro member hmember
  rcases mem_merged_cases hmember with ⟨schema, hschema, rfl⟩ | ⟨type, htype, rfl⟩
  · exact preserved.throughout_relabel _ _ _ (h schema hschema)
  · refine throughout_of_no_children (preserved.pooled _ _ _ (fun kept hkept => ?_) htype) rfl
    obtain ⟨schema, hschema, rfl, -⟩ := Members.mem_gather.mp (mem_of_mem_deduplicate hkept)
    exact preserved.relabel _ _ _ (h schema hschema schema (.refl schema))

/-- An invariant of the members holds inside of what they are combined to. -/
theorem Preserved.throughout_combine (preserved : Preserved P) (context : Text)
    {schemas : List Schema} (junction : Junction)
    (h : ∀ schema ∈ schemas, ∀ part, Subtree part schema → P part) :
    ∀ part, Subtree part (Schema.combine context (Members.gather schemas).schemas
      (Members.gather schemas).nullable junction) → P part := by
  have hmerged := preserved.throughout_merged context h
  rcases combine_cases context (Members.gather schemas).schemas (Members.gather schemas).nullable
    junction with ⟨-, heq⟩ | ⟨member, hmember, -, heq⟩ |
      ⟨hlength, ⟨-, heq⟩ | ⟨-, htold, heq⟩ | ⟨-, htold, heq⟩⟩ <;> rw [heq]
  · exact throughout_of_no_children (preserved.null _ _) rfl
  · exact preserved.throughout_relabel _ _ _ (hmerged member hmember)
  · refine throughout_iff.mpr ⟨preserved.allOf _ _ _ hlength, fun child hchild => ?_⟩
    exact hmerged child (by simpa [mem_children] using hchild)
  · refine throughout_iff.mpr ⟨preserved.oneOf _ _ _ hlength htold, fun child hchild => ?_⟩
    exact hmerged child (by simpa [mem_children] using hchild)
  · refine throughout_iff.mpr ⟨preserved.anyOf _ _ _ hlength htold, fun child hchild => ?_⟩
    exact hmerged child (by simpa [mem_children] using hchild)

end Schema

namespace Resolver

open Schema

variable {r : Resolver} {context : Text} {expr : TypeExpr} {schema : Schema} {P : Schema → Prop}

/-- A child of the schema of a shape is the schema of a field. -/
theorem exists_field_of_child {fields : List (ShapeField TypeExpr)} {schemas : List Schema}
    (hlength : fields.length = schemas.length) {child : Schema}
    (h : child ∈ (ofShape context fields ((fields.map ShapeField.key).zip schemas)).children) :
    ∃ field, (field, child) ∈ fields.zip schemas := by
  obtain ⟨property, hproperty, rfl⟩ : ∃ property ∈ Fields.ofList _, property.2 = child := by
    simpa [mem_children, ofShape] using h
  obtain ⟨-, hschema⟩ := List.of_mem_zip (Fields.mem_of_mem_ofList hproperty)
  exact exists_part_of_mem hlength hschema

/-- **What resolution returns has a property at the root and everywhere inside** if building a schema
preserves it and the references to the names in the expression have it. -/
theorem Resolves.throughout_of_references (h : r.Resolves context expr schema)
    (preserved : Preserved P)
    (hreferences : ∀ name ∈ expr.names, Builtin.ofName? name = none → ∀ context target,
      r.target? name = some target → P { context, ref := some target }) :
    ∀ part, Subtree part schema → P part := by
  have htexts : ∀ (context : Text) (texts : List Text), texts ≠ [] →
      ∀ part, Subtree part (ofTextLiterals context texts) → P part :=
    fun context texts hne => throughout_of_texts (preserved.texts context texts hne)
  have hints : ∀ (context : Text) (values : List Int), values ≠ [] →
      ∀ part, Subtree part (ofIntLiterals context values) → P part :=
    fun context values hne => throughout_of_no_children (preserved.ints context values hne) rfl
  induction h with
  | builtin _ _ =>
      rename_i builtin _ _
      refine preserved.throughout_relabel _ _ _
        (throughout_of_no_children (preserved.builtin builtin) ?_)
      cases builtin <;> rfl
  | reference hbuiltin htarget =>
      refine throughout_of_no_children ?_ rfl
      exact hreferences _ List.mem_cons_self hbuiltin _ _ htarget
  | qualified _ ih => exact ih hreferences
  | nullable _ ih | described _ ih => exact preserved.throughout_relabel _ _ _ (ih hreferences)
  | arrayOf _ ih =>
      refine throughout_iff.mpr ⟨preserved.list _ _, fun child hchild => ?_⟩
      obtain rfl : _ = child := by simpa [mem_children] using hchild
      exact ih hreferences
  | list _ _ _ ih =>
      refine throughout_iff.mpr ⟨preserved.list _ _, fun child hchild => ?_⟩
      obtain rfl : _ = child := by simpa [mem_children] using hchild
      exact ih fun name hname => hreferences name (TypeExpr.mem_namesAmong List.mem_cons_self hname)
  | emptyList _ _ => exact throughout_of_no_children (preserved.emptyList _) rfl
  | map _ ih =>
      refine throughout_iff.mpr ⟨preserved.map _ _, fun child hchild => ?_⟩
      obtain rfl : _ = child := by simpa [mem_children] using hchild
      refine ih fun name hname => hreferences name ?_
      exact TypeExpr.mem_namesAmong (List.mem_cons_of_mem _ List.mem_cons_self) hname
  | range => exact throughout_of_no_children (preserved.range _ _ _) rfl
  | shape hlength _ ih =>
      refine throughout_iff.mpr ⟨preserved.shape _ _ _ hlength, fun child hchild => ?_⟩
      obtain ⟨field, hpair⟩ := exists_field_of_child hlength hchild
      have hfield := (List.of_mem_zip hpair).1
      exact ih _ hpair fun name hname =>
        hreferences name (TypeExpr.mem_namesOfFields hfield hname)
  | literal hschema =>
      rcases ofLiteral?_eq_some_iff.mp hschema with ⟨text, -, rfl⟩ | ⟨value, -, rfl⟩
      · exact htexts _ _ (List.cons_ne_nil _ _)
      · exact hints _ _ (List.cons_ne_nil _ _)
  | literals hschema =>
      obtain ⟨hne, ⟨texts, rfl, rfl⟩ | ⟨values, rfl, rfl⟩⟩ := ofLiterals?_eq_some_iff.mp hschema
      · exact htexts _ _ (by simpa using hne)
      · exact hints _ _ (by simpa using hne)
  | union _ _ _ hlength _ ih | intersection _ _ hlength _ ih =>
      refine preserved.throughout_combine _ _ fun schema hschema => ?_
      obtain ⟨member, hpair⟩ := exists_part_of_mem hlength hschema
      have hmember := (List.of_mem_zip hpair).1
      exact ih _ hpair fun name hname => hreferences name (TypeExpr.mem_namesAmong hmember hname)

/-- **What resolution returns has an invariant at the root and everywhere inside.** -/
theorem Resolves.throughout (h : r.Resolves context expr schema) (invariant : Invariant P) :
    ∀ part, Subtree part schema → P part :=
  h.throughout_of_references invariant.toPreserved fun _ _ _ context target _ =>
    invariant.reference context target

end Resolver

end Schemata

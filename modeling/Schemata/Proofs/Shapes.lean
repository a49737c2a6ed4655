import Schemata.Proofs.Invariants

/-!
# The fields of a shape

Two lists come out of the fields of a shape. Its properties are a mapping: a key that is given again
keeps its place and takes the last type. The keys that are required are those of the fields that are
not optional, and a key that is given again is required again.

* **properties** — the keys in the order in which they first stand (`Fields.keys_ofList`), each with
  the schema of its last field (`ShapeField.IsLast`, `Resolver.get?_shape_of_last`);
* **required keys** — as often in the list as there are fields of that key that are not optional
  (`Schema.count_required`).

So the list says of each key whether it has to be given, and says it once, exactly if the fields do
(`Resolver.resolve_shape`).
-/

namespace Schemata

open List (Forall₂)

namespace Fields

variable {α : Type}

/-- **The names of a list stand in the order in which they first come.** -/
theorem keys_ofList (pairs : List (Text × α)) :
    keys (ofList pairs) = (pairs.map Prod.fst).eraseDups := by
  induction pairs using List.reverseRecOn with
  | nil => rfl
  | append_singleton pairs last ih =>
      rw [ofList_concat, List.map_append, List.map_singleton]
      by_cases hknown : last.1 ∈ pairs.map Prod.fst
      · rw [keys_insert_of_mem (mem_keys_ofList.mpr hknown), ih,
          eraseDups_concat_of_mem hknown]
      · rw [keys_insert_of_not_mem (mt mem_keys_ofList.mp hknown), ih,
          eraseDups_concat_of_not_mem hknown]

/-- **The last value that is given under a name counts.** -/
theorem get?_ofList_of_last {before after : List (Text × α)} {pair : Text × α}
    (h : pair.1 ∉ after.map Prod.fst) :
    get? (ofList (before ++ pair :: after)) pair.1 = some pair.2 := by
  induction after using List.reverseRecOn with
  | nil => rw [ofList_concat, get?_insert, if_pos rfl]
  | append_singleton after last ih =>
      rw [List.map_append, List.mem_append, not_or, List.map_singleton, List.mem_singleton] at h
      obtain ⟨hafter, hlast⟩ := h
      rw [← List.cons_append, ← List.append_assoc, ofList_concat, get?_insert,
        if_neg (Ne.symm hlast), ih hafter]

end Fields

namespace ShapeField

variable {fields : List (ShapeField TypeExpr)}

/-- The field stands in the list, and behind it none of its key. -/
def IsLast (fields : List (ShapeField TypeExpr)) (field : ShapeField TypeExpr) : Prop :=
  ∃ before after, fields = before ++ field :: after ∧ field.key ∉ after.map ShapeField.key

theorem IsLast.mem {field : ShapeField TypeExpr} (h : IsLast fields field) : field ∈ fields := by
  obtain ⟨before, after, rfl, -⟩ := h
  exact List.mem_append_right _ List.mem_cons_self

/-- Every key has a last field. -/
theorem exists_isLast {field : ShapeField TypeExpr} (h : field ∈ fields) :
    ∃ last, IsLast fields last ∧ last.key = field.key := by
  induction fields using List.reverseRecOn with
  | nil => exact absurd h List.not_mem_nil
  | append_singleton fields final ih =>
      by_cases hkey : final.key = field.key
      · exact ⟨final, ⟨fields, [], rfl, List.not_mem_nil⟩, hkey⟩
      · have hfield : field ∈ fields := by
          rcases List.mem_append.mp h with hfield | hfield
          · exact hfield
          · exact absurd (congrArg ShapeField.key (List.mem_singleton.mp hfield)).symm hkey
        obtain ⟨last, ⟨before, after, rfl, hafter⟩, hlast⟩ := ih hfield
        refine ⟨last, ⟨before, after ++ [final], by simp, ?_⟩, hlast⟩
        rw [List.map_append, List.mem_append, not_or]
        refine ⟨hafter, fun hfinal => hkey ?_⟩
        rw [← hlast, List.mem_singleton.mp hfinal]

/-- The fields agree on what has to be given: no key is given twice by fields that are not optional,
and if one of its fields is not optional then its last one is not. -/
structure Agree (fields : List (ShapeField TypeExpr)) : Prop where
  once : ((fields.filter fun field => !field.optional).map ShapeField.key).Nodup
  last : ∀ field ∈ fields, field.optional = false →
    ∀ last, IsLast fields last → last.key = field.key → last.optional = false

/-- The list names, once each, the keys whose last field is not optional; and it is left out if there
are none. -/
structure Requires (required : Option (List Text)) (fields : List (ShapeField TypeExpr)) : Prop where
  once : (required.getD []).Nodup
  mem_iff : ∀ last, IsLast fields last → (last.key ∈ required.getD [] ↔ last.optional = false)
  absent_iff : required = none ↔ ∀ last, IsLast fields last → last.optional = true

end ShapeField

namespace Schema

open ShapeField

variable (context : Text) (fields : List (ShapeField TypeExpr)) (schemas : Fields Schema)

theorem required_eq_none_iff :
    (ofShape context fields schemas).required = none ↔ ∀ field ∈ fields, field.optional = true := by
  simp [ofShape]

theorem getD_required :
    (ofShape context fields schemas).required.getD [] =
      (fields.filter fun field => !field.optional).map ShapeField.key := by
  simp only [ofShape]
  split
  · next hempty => rw [Option.getD_none, List.isEmpty_iff.mp hempty]
  · rw [Option.getD_some]

theorem mem_required_iff {key : Text} :
    key ∈ (ofShape context fields schemas).required.getD [] ↔
      ∃ field ∈ fields, field.key = key ∧ field.optional = false := by
  rw [getD_required]
  simp only [List.mem_map, List.mem_filter, Bool.not_eq_true']
  constructor
  · rintro ⟨field, ⟨hfield, hmandatory⟩, hkey⟩
    exact ⟨field, hfield, hkey, hmandatory⟩
  · rintro ⟨field, hfield, hkey, hmandatory⟩
    exact ⟨field, ⟨hfield, hmandatory⟩, hkey⟩

/-- **A key is required as often as fields that are not optional give it.** -/
theorem count_required (key : Text) :
    ((ofShape context fields schemas).required.getD []).count key =
      fields.countP fun field => field.key = key ∧ field.optional = false := by
  rw [getD_required, List.count, List.countP_map, List.countP_filter]
  refine List.countP_congr fun field _ => ?_
  simp

/-- **What is required is what has to be given, exactly if the fields agree on that.** -/
theorem requires_iff : Requires (ofShape context fields schemas).required fields ↔ Agree fields := by
  constructor
  · intro h
    refine ⟨?_, ?_⟩
    · have honce := h.once
      rwa [getD_required] at honce
    · intro field hfield hmandatory last hlast hkey
      refine (h.mem_iff last hlast).mp ?_
      exact (mem_required_iff context fields schemas).mpr ⟨field, hfield, hkey.symm, hmandatory⟩
  · intro h
    refine ⟨?_, ?_, ?_⟩
    · rw [getD_required]
      exact h.once
    · intro last hlast
      rw [mem_required_iff]
      constructor
      · rintro ⟨field, hfield, hkey, hmandatory⟩
        exact h.last field hfield hmandatory last hlast hkey.symm
      · intro hmandatory
        exact ⟨last, hlast.mem, rfl, hmandatory⟩
    · rw [required_eq_none_iff]
      constructor
      · exact fun hall last hlast => hall last hlast.mem
      · intro hall field hfield
        obtain ⟨last, hlast, hkey⟩ := exists_isLast hfield
        by_contra hmandatory
        have hfalse := h.last field hfield (eq_false_of_ne_true hmandatory) last hlast hkey
        exact absurd (hall last hlast) (by simp [hfalse])

end Schema

namespace Resolver

variable {r : Resolver} {context : Text} {fields : List (ShapeField TypeExpr)} {schema : Schema}

/-- A shape that resolves is made of the schemas of its fields. -/
theorem exists_shape (h : (r.resolve context (.shape fields)).outcome = .ok schema) :
    ∃ schemas, Forall₂ (fun field schema => (r.resolve context field.type).outcome = .ok schema)
        fields schemas ∧
      schema = .ofShape context fields ((fields.map ShapeField.key).zip schemas) := by
  simp only [resolve, Report.outcome_bind_ok_iff, Report.outcome_pure_ok_iff,
    resolveFields_ok_iff] at h
  obtain ⟨named, ⟨schemas, hall, rfl⟩, rfl⟩ := h
  exact ⟨schemas, hall, rfl⟩

/-- **The schema of a key is that of its last field.** -/
theorem get?_shape_of_last {R : ShapeField TypeExpr → Schema → Prop} {schemas : List Schema}
    (hall : Forall₂ R fields schemas) {last : ShapeField TypeExpr}
    (hlast : ShapeField.IsLast fields last) :
    ∃ property, Fields.get? (Fields.ofList ((fields.map ShapeField.key).zip schemas)) last.key =
      some property ∧ R last property := by
  obtain ⟨before, after, rfl, hafter⟩ := hlast
  obtain ⟨first, property, rest, rfl, hfirst, hproperty, hrest⟩ := forall₂_split hall
  refine ⟨property, ?_, hproperty⟩
  have hpairs : ((before ++ last :: after).map ShapeField.key).zip (first ++ property :: rest) =
      (before.map ShapeField.key).zip first ++
        (last.key, property) :: (after.map ShapeField.key).zip rest := by
    rw [List.map_append, List.map_cons, List.zip_append (by simpa using hfirst), List.zip_cons_cons]
  have hlater : last.key ∉ ((after.map ShapeField.key).zip rest).map Prod.fst := by
    rwa [List.map_fst_zip (by simp [hrest])]
  rw [hpairs]
  exact Fields.get?_ofList_of_last hlater

/-- **The schema of a shape**, from its fields: the properties are the keys in the order in which they
first stand, each with the schema of its last field. A key is required if one of its fields is not
optional, as often as there are such fields, and the list is left out if there is none. It names the
keys whose last field is not optional, and each of them once, exactly if the fields agree on what has
to be given. -/
theorem resolve_shape (h : (r.resolve context (.shape fields)).outcome = .ok schema) :
    (∃ properties, schema.properties = some properties ∧
      Fields.keys properties = (fields.map ShapeField.key).eraseDups ∧
      ∀ last, ShapeField.IsLast fields last → ∃ property,
        Fields.get? properties last.key = some property ∧
          (r.resolve context last.type).outcome = .ok property) ∧
    (∀ key, key ∈ schema.required.getD [] ↔
      ∃ field ∈ fields, field.key = key ∧ field.optional = false) ∧
    (∀ key, (schema.required.getD []).count key =
      fields.countP fun field => field.key = key ∧ field.optional = false) ∧
    (schema.required = none ↔ ∀ field ∈ fields, field.optional = true) ∧
    (ShapeField.Requires schema.required fields ↔ ShapeField.Agree fields) := by
  obtain ⟨schemas, hall, rfl⟩ := exists_shape h
  refine ⟨⟨_, rfl, ?_, fun last hlast => get?_shape_of_last hall hlast⟩,
    fun _ => Schema.mem_required_iff context fields _, Schema.count_required context fields _,
    Schema.required_eq_none_iff context fields _, Schema.requires_iff context fields _⟩
  rw [Fields.keys_ofList, List.map_fst_zip (by simp [hall.length_eq])]

/-- A key that is given three times, each time by a field that is not optional. It stands first among
the properties, with the last of its types, and is required three times; the fields do not agree. -/
theorem shape_of_repeated_key :
    let r : Resolver := {}
    let field := fun key type : Text => ShapeField.mk key (.identifier type) false
    let fields := [field "a" "int", field "b" "int", field "a" "bool", field "a" "string"]
    ∃ schema, (r.resolve "$" (.shape fields)).outcome = .ok schema ∧
      (∃ properties, schema.properties = some properties ∧
        Fields.keys properties = ["a", "b"] ∧
        ∃ property, Fields.get? properties "a" = some property ∧
          (r.resolve "$" (.identifier "string")).outcome = .ok property) ∧
      (schema.required.getD []).count ("a" : Text) = 3 ∧
      ¬ ShapeField.Requires schema.required fields := by
  intro r field fields
  have hresolves : ∃ schema, (r.resolve "$" (.shape fields)).outcome = .ok schema := ⟨_, rfl⟩
  obtain ⟨schema, hschema⟩ := hresolves
  obtain ⟨⟨properties, hproperties, hkeys, hlast⟩, -, hcount, -, hagree⟩ := resolve_shape hschema
  refine ⟨schema, hschema, ⟨properties, hproperties, hkeys.trans (by decide), ?_⟩, ?_, ?_⟩
  · exact hlast (field "a" "string") ⟨fields.take 3, [], rfl, List.not_mem_nil⟩
  · exact (hcount "a").trans (by decide)
  · rw [hagree]
    intro h
    exact absurd h.once (by decide)

/-- The last `a` is optional, and `a` is required because of the first. -/
theorem optional_key_is_required :
    let r : Resolver := {}
    let last : ShapeField TypeExpr := ⟨"a", .identifier "string", true⟩
    let fields := [⟨"a", .identifier "int", false⟩, last]
    ∃ schema, (r.resolve "$" (.shape fields)).outcome = .ok schema ∧
      ShapeField.IsLast fields last ∧ schema.required = some [("a" : Text)] := by
  intro r last fields
  exact ⟨_, rfl, ⟨[⟨"a", .identifier "int", false⟩], [], rfl, List.not_mem_nil⟩, rfl⟩

end Resolver

end Schemata

import Mathlib.Data.List.Forall2
import Schemata.Proofs.Trees
import Schemata.Resolve

/-!
# What an expression resolves to

`Resolver.resolve` as a relation. `r.Resolves context expr schema` has one rule for each way in which
an expression gets its schema, with everything that the way asks for:

* **leaves** — what a name, a problem that may be fatal and a list of parts end with
  (`Resolver.resolveIdentifier_ok_iff`, `Resolver.resolveFields_ok_iff`,
  `Resolver.resolveMembers_ok_iff`);
* **gathering** — the members of a union or an intersection are gathered from their schemas alone:
  the name `null` is skipped, which is what would become of its schema anyway (`Members.gather`);
* **both directions** — resolution ends with a schema exactly if the relation has it
  (`Resolver.resolve_ok_iff`).

Every property of the schemas that resolution returns is then an induction over the rules, and
nothing else has to open the definition.
-/

namespace Schemata

open List (Forall₂)

namespace Report

variable {α β : Type}

theorem outcome_bind_ok_iff {report : Report α} {next : α → Report β} {result : β} :
    (report >>= next).outcome = .ok result ↔
      ∃ value, report.outcome = .ok value ∧ (next value).outcome = .ok result := by
  rw [outcome_bind]
  cases report.outcome <;> simp [Except.bind]

theorem outcome_pure_ok_iff {value result : α} :
    (pure value : Report α).outcome = .ok result ↔ value = result := by
  simp [pure]

theorem outcome_panic_ne_ok (context : Text) (problem : Problem) (result : α) :
    (panic context problem : Report α).outcome ≠ .ok result := by
  simp [panic]

end Report

open Report

/-! ## Gathering members -/

/-- A schema that is not nullable is itself without null. -/
theorem Schema.eq_of_not_nullable {schema : Schema} (h : schema.nullable = false) :
    { schema with nullable := false } = schema := by
  cases schema
  cases h
  rfl

namespace Members

/-- The members with these schemas, in order. -/
def gather (schemas : List Schema) : Members := schemas.foldr add ⟨false, []⟩

/-- Null is a member if one of the schemas is nullable. -/
theorem gather_nullable (schemas : List Schema) :
    (gather schemas).nullable = schemas.any Schema.nullable := by
  induction schemas with
  | nil => rfl
  | cons schema schemas ih =>
      show (add schema (gather schemas)).nullable = _
      rw [List.any_cons, ← ih, add]
      cases hn : schema.nullable with
      | true =>
          simp only [if_pos, Bool.true_or]
          split <;> rfl
      | false => simp

/-- The other members are the schemas without null, but for those of which nothing is left. -/
theorem mem_gather {schemas : List Schema} {member : Schema} :
    member ∈ (gather schemas).schemas ↔
      ∃ schema ∈ schemas, member = { schema with nullable := false } ∧
        (schema.nullable = true → member.same {} = false) := by
  induction schemas with
  | nil => simp [gather]
  | cons schema schemas ih =>
      show member ∈ (add schema (gather schemas)).schemas ↔ _
      rw [List.exists_mem_cons_iff, ← ih, add]
      cases hn : schema.nullable with
      | true =>
          simp only [if_pos]
          split
          · -- nothing is left: the head is no member
            next hsame =>
            simp only [addNull]
            constructor
            · exact .inr
            · intro hright
              rcases hright with ⟨rfl, hleft⟩ | hrest
              · rw [hsame] at hleft
                simp at hleft
              · exact hrest
          · next hsame =>
            simp only [List.mem_cons]
            constructor
            · intro hleft
              rcases hleft with rfl | hrest
              · exact .inl ⟨rfl, fun _ => by simpa using hsame⟩
              · exact .inr hrest
            · intro hright
              rcases hright with ⟨rfl, -⟩ | hrest
              · exact .inl rfl
              · exact .inr hrest
      | false =>
          simp [Schema.eq_of_not_nullable hn]

/-- The schema of null leaves nothing but null. -/
theorem add_null (context : Text) (members : Members) :
    add { context, nullable := true } members = members.addNull := by
  have hsame : ({ context } : Schema).same {} = true := by
    simp [Schema.same, Schema.sameItem, Schema.sameMembers, Schema.sameProperties,
      Schema.sameAdditional, Schema.sameEnum, Json.same]
  simp [add, hsame]

end Members

/-! ## Literals -/

theorem TypeExpr.textLiteral?_eq_some_iff {expr : TypeExpr} {text : Text} :
    expr.textLiteral? = some text ↔ expr = .literal (.str text) := by
  unfold textLiteral?
  split <;> simp_all

theorem TypeExpr.intLiteral?_eq_some_iff {expr : TypeExpr} {value : Int} :
    expr.intLiteral? = some value ↔ expr = .literal (.int value) := by
  unfold intLiteral?
  split <;> simp_all

/-- A reading of all expressions of a list succeeds if they are what its results are written as. -/
theorem mapM_eq_some_iff {α : Type} {read : TypeExpr → Option α} {write : α → TypeExpr}
    (h : ∀ expr result, read expr = some result ↔ expr = write result) {exprs : List TypeExpr}
    {results : List α} : exprs.mapM read = some results ↔ exprs = results.map write := by
  induction exprs generalizing results with
  | nil => cases results <;> simp
  | cons expr exprs ih =>
      rw [List.mapM_cons]
      cases results with
      | nil => simp [Option.bind_eq_some_iff]
      | cons result results => simp [Option.bind_eq_some_iff, h, ih]

/-- Literals of one sort are taken together, unless there are none of them. -/
theorem Schema.ofLiterals?_eq_some_iff {context : Text} {members : List TypeExpr} {schema : Schema} :
    ofLiterals? context members = some schema ↔
      members ≠ [] ∧
        ((∃ texts, members = texts.map (fun text => .literal (.str text)) ∧
            schema = ofTextLiterals context texts) ∨
          ∃ values, members = values.map (fun value => .literal (.int value)) ∧
            schema = ofIntLiterals context values) := by
  have htext : ∀ texts, members.mapM TypeExpr.textLiteral? = some texts ↔
      members = texts.map fun text => .literal (.str text) :=
    fun _ => mapM_eq_some_iff fun _ _ => TypeExpr.textLiteral?_eq_some_iff
  have hint : ∀ values, members.mapM TypeExpr.intLiteral? = some values ↔
      members = values.map fun value => .literal (.int value) :=
    fun _ => mapM_eq_some_iff fun _ _ => TypeExpr.intLiteral?_eq_some_iff
  unfold ofLiterals?
  split
  · next hempty =>
    have hnil : members = [] := List.isEmpty_iff.mp hempty
    simp [hnil]
  · next hempty =>
    have hne : members ≠ [] := fun h => hempty (List.isEmpty_iff.mpr h)
    split
    · next texts htexts =>
      rw [Option.some.injEq]
      constructor
      · rintro rfl
        exact ⟨hne, .inl ⟨texts, (htext texts).mp htexts, rfl⟩⟩
      · intro hright
        rcases hright with ⟨-, ⟨others, hothers, rfl⟩ | ⟨values, hvalues, -⟩⟩
        · rw [(htext others).mpr hothers, Option.some.injEq] at htexts
          rw [htexts]
        · -- a member cannot be a text and an integer
          have htexts := (htext texts).mp htexts
          obtain ⟨member, hmember⟩ := List.exists_mem_of_ne_nil members hne
          obtain ⟨text, -, rfl⟩ := List.mem_map.mp (htexts ▸ hmember)
          obtain ⟨value, -, hvalue⟩ := List.mem_map.mp (hvalues ▸ hmember)
          simp at hvalue
    · next values htexts hvalues =>
      rw [Option.some.injEq]
      constructor
      · rintro rfl
        exact ⟨hne, .inr ⟨values, (hint values).mp hvalues, rfl⟩⟩
      · intro hright
        rcases hright with ⟨-, ⟨texts, hothers, -⟩ | ⟨others, hothers, rfl⟩⟩
        · rw [(htext texts).mpr hothers] at htexts
          simp at htexts
        · rw [(hint others).mpr hothers, Option.some.injEq] at hvalues
          rw [hvalues]
    · next htexts hvalues =>
      constructor
      · intro h
        simp at h
      · intro hright
        rcases hright with ⟨-, ⟨texts, hothers, -⟩ | ⟨values, hothers, -⟩⟩
        · rw [(htext texts).mpr hothers] at htexts
          simp at htexts
        · rw [(hint values).mpr hothers] at hvalues
          simp at hvalues

/-- A literal on its own is taken as a list of one. -/
theorem Schema.ofLiteral?_eq_some_iff {context : Text} {value : Json} {schema : Schema} :
    ofLiteral? context value = some schema ↔
      (∃ text, value = .str text ∧ schema = ofTextLiterals context [text]) ∨
        ∃ number, value = .int number ∧ schema = ofIntLiterals context [number] := by
  cases value <;> simp [ofLiteral?, eq_comm]

/-- A literal on its own is taken as a union of it alone. -/
theorem Schema.ofLiterals?_singleton {context : Text} {value : Json} {schema : Schema}
    (h : ofLiteral? context value = some schema) :
    ofLiterals? context [.literal value] = some schema := by
  rw [ofLiterals?_eq_some_iff]
  refine ⟨List.cons_ne_nil _ _, ?_⟩
  rcases ofLiteral?_eq_some_iff.mp h with ⟨text, rfl, rfl⟩ | ⟨number, rfl, rfl⟩
  · exact .inl ⟨[text], rfl, rfl⟩
  · exact .inr ⟨[number], rfl, rfl⟩

/-- Of literals nothing is said but their type, its format and the allowed values. -/
theorem Schema.eq_of_literals {context : Text} {members : List TypeExpr} {schema : Schema}
    (h : ofLiterals? context members = some schema) :
    schema = { context, type := schema.type, format := schema.format, enum := schema.enum } := by
  obtain ⟨-, ⟨texts, -, rfl⟩ | ⟨values, -, rfl⟩⟩ := ofLiterals?_eq_some_iff.mp h
  · unfold ofTextLiterals
    split <;> rfl
  · rfl

theorem Schema.ofTextLiterals_type (context : Text) (texts : List Text) :
    (ofTextLiterals context texts).type = some ("string" : Text) := by
  unfold ofTextLiterals
  split <;> rfl

theorem Schema.ofTextLiterals_description (context : Text) (texts : List Text) :
    (ofTextLiterals context texts).description = none := by
  unfold ofTextLiterals
  split <;> rfl

namespace Resolver

variable {r : Resolver} {context : Text}

/-! ## Leaves -/

/-- The reference to a definition of that name, if there is one that can be written. -/
def target? (r : Resolver) (name : Text) : Option Text :=
  match r.definitions.mentions? name with
  | some true => (r.config.reference name).toOption
  | _ => none

theorem errorIf_ok_iff {cause : Bool} {problem : Problem} {u : Unit} :
    (r.errorIf cause context problem).outcome = .ok u ↔ (r.strict = true → cause = false) := by
  unfold errorIf Report.error
  cases cause <;> cases r.strict <;> simp [Report.panic, pure]

theorem resolveReference_ok_iff {name : Text} {schema : Schema} :
    (r.resolveReference context name).outcome = .ok schema ↔
      ∃ target, r.target? name = some target ∧ schema = { context, ref := some target } := by
  unfold resolveReference target?
  cases hm : r.definitions.mentions? name with
  | none => simp [Report.fail]
  | some mentioned =>
      cases mentioned with
      | false => simp [Report.panic]
      | true =>
          cases hr : r.config.reference name with
          | error failure => simp [Report.fail, Except.toOption]
          | ok target =>
              simp only [outcome_pure_ok_iff, Except.toOption, Option.some.injEq, exists_eq_left']
              exact eq_comm

theorem resolveIdentifier_ok_iff {name : Text} {schema : Schema} :
    (r.resolveIdentifier context name).outcome = .ok schema ↔
      (r.strict = true → name ≠ "array") ∧
        ((∃ builtin, Builtin.ofName? name.unrooted = some builtin ∧
            schema = { builtin.schema with context := context }) ∨
          Builtin.ofName? name.unrooted = none ∧ ∃ target, r.target? name.unrooted = some target ∧
            schema = { context, ref := some target }) := by
  unfold resolveIdentifier
  simp only [outcome_bind_ok_iff, errorIf_ok_iff, decide_eq_false_iff_not, exists_and_left,
    exists_const]
  refine and_congr_right fun _ => ?_
  cases Builtin.ofName? name.unrooted with
  | none => simp [resolveReference_ok_iff]
  | some builtin =>
      simp only [outcome_pure_ok_iff, Option.some.injEq, exists_eq_left', reduceCtorEq, false_and,
        or_false]
      exact eq_comm

theorem resolve_null {expr : TypeExpr} (h : expr.isIdentifier "null" = true) {schema : Schema} :
    (r.resolve context expr).outcome = .ok schema ↔ schema = { context, nullable := true } := by
  rw [resolve_eq_of_null h, outcome_pure_ok_iff]
  exact eq_comm

/-- The names `null` and `mixed` are two. -/
theorem not_mixed_of_null {expr : TypeExpr} (h : expr.isIdentifier "null" = true) :
    expr.isIdentifier "mixed" = false := by
  cases expr with
  | identifier name =>
      have hname : name.unrooted = "null" := by simpa [TypeExpr.isIdentifier] using h
      rw [TypeExpr.isIdentifier, hname]
      decide
  | _ => rfl

theorem resolveFields_ok_iff {fields : List (ShapeField TypeExpr)} {named : Fields Schema} :
    (r.resolveFields context fields).outcome = .ok named ↔
      ∃ schemas, Forall₂ (fun field schema => (r.resolve context field.type).outcome = .ok schema)
        fields schemas ∧ named = (fields.map ShapeField.key).zip schemas := by
  induction fields generalizing named with
  | nil =>
      simp only [resolveFields, outcome_pure_ok_iff, List.forall₂_nil_left_iff, exists_eq_left,
        List.map_nil, List.zip_nil_left]
      exact eq_comm
  | cons field fields ih =>
      obtain ⟨key, type, optional⟩ := field
      simp only [resolveFields, outcome_bind_ok_iff, outcome_pure_ok_iff, ih]
      constructor
      · intro hleft
        rcases hleft with ⟨schema, hschema, others, ⟨schemas, hschemas, rfl⟩, rfl⟩
        exact ⟨schema :: schemas, .cons hschema hschemas, rfl⟩
      · intro hright
        rcases hright with ⟨schemas, hall, rfl⟩
        cases hall with
        | cons hschema hschemas => exact ⟨_, hschema, _, ⟨_, hschemas, rfl⟩, rfl⟩

/-- The expressions resolve to the schemas, one by one. -/
abbrev ResolvesAll (r : Resolver) (context : Text) (exprs : List TypeExpr) (schemas : List Schema) :
    Prop :=
  Forall₂ (fun expr schema => (r.resolve context expr).outcome = .ok schema) exprs schemas

theorem resolveMembers_ok_iff {exprs : List TypeExpr} {members : Members} :
    (r.resolveMembers context exprs).outcome = .ok members ↔
      (r.strict = true → ∀ expr ∈ exprs, expr.isIdentifier "mixed" = false) ∧
        ∃ schemas, r.ResolvesAll context exprs schemas ∧ members = Members.gather schemas := by
  induction exprs generalizing members with
  | nil =>
      simp only [resolveMembers, outcome_pure_ok_iff, List.forall₂_nil_left_iff, exists_eq_left,
        List.not_mem_nil, IsEmpty.forall_iff, implies_true, true_and]
      exact eq_comm
  | cons expr exprs ih =>
      rw [resolveMembers]
      by_cases hnull : expr.isIdentifier "null" = true
      · -- the name is skipped; its schema would have added null and nothing else
        rw [if_pos hnull]
        simp only [outcome_bind_ok_iff, outcome_pure_ok_iff, ih, List.forall_mem_cons,
          not_mixed_of_null hnull, true_and]
        constructor
        · intro hleft
          rcases hleft with ⟨others, ⟨hstrict, schemas, hall, rfl⟩, rfl⟩
          exact ⟨hstrict, _ :: schemas, .cons ((resolve_null hnull).mpr rfl) hall,
            (Members.add_null context _).symm⟩
        · intro hright
          rcases hright with ⟨hstrict, schemas, hall, rfl⟩
          cases hall with
          | cons hschema hschemas =>
              obtain rfl := (resolve_null hnull).mp hschema
              exact ⟨_, ⟨hstrict, _, hschemas, rfl⟩, (Members.add_null context _).symm⟩
      · rw [if_neg hnull]
        simp only [outcome_bind_ok_iff, outcome_pure_ok_iff, errorIf_ok_iff, ih, exists_and_left,
          exists_const, List.forall_mem_cons]
        constructor
        · intro hleft
          rcases hleft with ⟨hmixed, schema, hschema, others, ⟨hstrict, schemas, hall, rfl⟩, rfl⟩
          exact ⟨fun hs => ⟨hmixed hs, hstrict hs⟩, schema :: schemas, .cons hschema hall, rfl⟩
        · intro hright
          rcases hright with ⟨hstrict, schemas, hall, rfl⟩
          cases hall with
          | cons hschema hschemas =>
              exact ⟨fun hs => (hstrict hs).1, _, hschema, _,
                ⟨fun hs => (hstrict hs).2, _, hschemas, rfl⟩, rfl⟩

/-- Members that resolve are put together, unless resolution is strict about `mixed`. -/
theorem combined_ok_iff {exprs : List TypeExpr} {junction : Junction} {schema : Schema} :
    (do
      let resolved ← r.resolveMembers context exprs
      return Schema.combine context resolved.schemas resolved.nullable junction :
        Report Schema).outcome = .ok schema ↔
      (r.strict = true → ∀ expr ∈ exprs, expr.isIdentifier "mixed" = false) ∧
        ∃ schemas, r.ResolvesAll context exprs schemas ∧
          Schema.combine context (Members.gather schemas).schemas (Members.gather schemas).nullable
            junction = schema := by
  simp only [outcome_bind_ok_iff, outcome_pure_ok_iff, resolveMembers_ok_iff]
  constructor
  · intro hleft
    rcases hleft with ⟨_, ⟨hstrict, schemas, hall, rfl⟩, hschema⟩
    exact ⟨hstrict, schemas, hall, hschema⟩
  · intro hright
    rcases hright with ⟨hstrict, schemas, hall, hschema⟩
    exact ⟨_, ⟨hstrict, schemas, hall, rfl⟩, hschema⟩

/-! ## The rules -/

/-- `r.Resolves context expr schema`: the resolver `r` turns the expression into the schema. The
parts of an expression stand beside their schemas in two lists of one length. -/
inductive Resolves (r : Resolver) : Text → TypeExpr → Schema → Prop
  | builtin {context name : Text} {builtin : Builtin} :
      (r.strict = true → name ≠ "array") → Builtin.ofName? name.unrooted = some builtin →
      Resolves r context (.identifier name) { builtin.schema with context := context }
  | reference {context name target : Text} :
      Builtin.ofName? name.unrooted = none → r.target? name.unrooted = some target →
      Resolves r context (.identifier name) { context, ref := some target }
  | qualified {context : Text} {parts : List Text} {schema : Schema} :
      Resolves r context (.identifier (TypeExpr.lastPart parts)) schema →
      Resolves r context (.qualified parts) schema
  | nullable {context : Text} {inner : TypeExpr} {schema : Schema} :
      Resolves r context inner schema →
      Resolves r context (.nullable inner) { schema with nullable := true }
  | described {context description : Text} {inner : TypeExpr} {schema : Schema} :
      Resolves r context inner schema →
      Resolves r context (.described inner description)
        { schema with description := some description }
  | arrayOf {context : Text} {element : TypeExpr} {items : Schema} :
      Resolves r (context ++ ": items") element items →
      Resolves r context (.arrayOf element) { context, type := some "array", items := some items }
  | emptyList {context name : Text} {argument : TypeExpr} :
      name = "array" ∨ name = "list" → argument.isIdentifier "empty" = true →
      Resolves r context (.generic name [argument])
        { context, type := some "array", maxItems := some 0 }
  | list {context name : Text} {argument : TypeExpr} {items : Schema} :
      name = "array" ∨ name = "list" → argument.isIdentifier "empty" = false →
      Resolves r context argument items →
      Resolves r context (.generic name [argument])
        { context, type := some "array", items := some items }
  | map {context : Text} {element : TypeExpr} {values : Schema} :
      Resolves r (context ++ ": additionalProperties") element values →
      Resolves r context (.generic "array" [.identifier "string", element])
        { context, type := some "object", additional := some (.schema values) }
  | range {context : Text} {low high : TypeExpr} :
      Resolves r context (.generic "int" [low, high])
        { Schema.int64 with
          context := context, minimum := low.intLiteral?, maximum := high.intLiteral? }
  | shape {context : Text} {fields : List (ShapeField TypeExpr)} {schemas : List Schema} :
      fields.length = schemas.length →
      (∀ pair ∈ fields.zip schemas, Resolves r context pair.1.type pair.2) →
      Resolves r context (.shape fields)
        (Schema.ofShape context fields ((fields.map ShapeField.key).zip schemas))
  | literal {context : Text} {value : Json} {schema : Schema} :
      Schema.ofLiteral? context value = some schema → Resolves r context (.literal value) schema
  | literals {context : Text} {members : List TypeExpr} {schema : Schema} :
      Schema.ofLiterals? context members = some schema → Resolves r context (.union members) schema
  | union {context : Text} {members : List TypeExpr} {schemas : List Schema} :
      members ≠ [] → Schema.ofLiterals? context members = none →
      (r.strict = true → ∀ member ∈ members, member.isIdentifier "mixed" = false) →
      members.length = schemas.length →
      (∀ pair ∈ members.zip schemas, Resolves r context pair.1 pair.2) →
      Resolves r context (.union members)
        (Schema.combine context (Members.gather schemas).schemas
          (Members.gather schemas).nullable .union)
  | intersection {context : Text} {members : List TypeExpr} {schemas : List Schema} :
      members ≠ [] →
      (r.strict = true → ∀ member ∈ members, member.isIdentifier "mixed" = false) →
      members.length = schemas.length →
      (∀ pair ∈ members.zip schemas, Resolves r context pair.1 pair.2) →
      Resolves r context (.intersection members)
        (Schema.combine context (Members.gather schemas).schemas
          (Members.gather schemas).nullable .intersection)

/-- Parts that resolve one by one stand beside their schemas. -/
theorem forall_zip_of_forall₂ {α : Type} {R : α → Schema → Prop} {parts : List α}
    {schemas : List Schema} (h : Forall₂ R parts schemas) :
    parts.length = schemas.length ∧ ∀ pair ∈ parts.zip schemas, R pair.1 pair.2 :=
  ⟨h.length_eq, fun _ hpair => List.forall₂_zip h hpair⟩

/-- What an ending resolution returns comes from the rules. -/
theorem resolves_of_ok {expr : TypeExpr} {schema : Schema}
    (h : (r.resolve context expr).outcome = .ok schema) : r.Resolves context expr schema := by
  induction expr generalizing context schema with
  | identifier name =>
      rw [resolve, resolveIdentifier_ok_iff] at h
      obtain ⟨hbare, ⟨builtin, hbuiltin, rfl⟩ | ⟨hbuiltin, target, htarget, rfl⟩⟩ := h
      · exact .builtin hbare hbuiltin
      · exact .reference hbuiltin htarget
  | qualified parts =>
      rw [resolve, resolveIdentifier_ok_iff] at h
      obtain ⟨hbare, ⟨builtin, hbuiltin, rfl⟩ | ⟨hbuiltin, target, htarget, rfl⟩⟩ := h
      · exact .qualified (.builtin hbare hbuiltin)
      · exact .qualified (.reference hbuiltin htarget)
  | nullable inner ih =>
      -- a bind that ends well splits into what its parts return
      simp only [resolve, outcome_bind_ok_iff, outcome_pure_ok_iff] at h
      obtain ⟨inner, hinner, rfl⟩ := h
      exact .nullable (ih hinner)
  | described inner description ih =>
      simp only [resolve, outcome_bind_ok_iff, outcome_pure_ok_iff] at h
      obtain ⟨inner, hinner, rfl⟩ := h
      exact .described (ih hinner)
  | arrayOf element ih =>
      simp only [resolve, outcome_bind_ok_iff, outcome_pure_ok_iff] at h
      obtain ⟨items, hitems, rfl⟩ := h
      exact .arrayOf (ih hitems)
  | generic name args ih =>
      unfold resolve at h
      split at h
      · exact absurd h (outcome_panic_ne_ok _ _ _)
      · split at h
        · -- one argument: a list
          next argument =>
          split at h
          · next hname =>
            split at h
            · next hempty =>
              obtain rfl := outcome_pure_ok_iff.mp h
              exact .emptyList hname hempty
            · next hempty =>
              simp only [outcome_bind_ok_iff, outcome_pure_ok_iff] at h
              obtain ⟨items, hitems, rfl⟩ := h
              exact .list hname (by simpa using hempty) (ih argument List.mem_cons_self hitems)
          · exact absurd h (outcome_panic_ne_ok _ _ _)
        · -- two arguments: a map or a range
          next first second =>
          split at h
          · next hname =>
            subst hname
            split at h
            · next key =>
              split at h
              · next hkey =>
                subst hkey
                simp only [outcome_bind_ok_iff, outcome_pure_ok_iff] at h
                obtain ⟨values, hvalues, rfl⟩ := h
                exact .map (ih second (List.mem_cons_of_mem _ List.mem_cons_self) hvalues)
              · exact absurd h (outcome_panic_ne_ok _ _ _)
            · exact absurd h (outcome_panic_ne_ok _ _ _)
          · split at h
            · next hname =>
              subst hname
              obtain rfl := outcome_pure_ok_iff.mp h
              exact .range
            · exact absurd h (outcome_panic_ne_ok _ _ _)
        · exact absurd h (outcome_panic_ne_ok _ _ _)
  | shape fields ih =>
      simp only [resolve, outcome_bind_ok_iff, outcome_pure_ok_iff, resolveFields_ok_iff] at h
      obtain ⟨named, ⟨schemas, hall, rfl⟩, rfl⟩ := h
      obtain ⟨hlength, hzip⟩ := forall_zip_of_forall₂ hall
      exact .shape hlength fun pair hpair =>
        ih pair.1 (List.of_mem_zip hpair).1 (hzip pair hpair)
  | literal value =>
      rw [resolve] at h
      split at h
      · next found hfound =>
        obtain rfl := outcome_pure_ok_iff.mp h
        exact .literal hfound
      · exact absurd h (outcome_panic_ne_ok _ _ _)
  | union members ih =>
      rw [resolve] at h
      split at h
      · exact absurd h (outcome_panic_ne_ok _ _ _)
      · next hne =>
        split at h
        · next found hfound =>
          obtain rfl := outcome_pure_ok_iff.mp h
          exact .literals hfound
        · next hmixture =>
          obtain ⟨hstrict, schemas, hall, rfl⟩ := combined_ok_iff.mp h
          obtain ⟨hlength, hzip⟩ := forall_zip_of_forall₂ hall
          exact .union (by simpa using hne) hmixture hstrict hlength fun pair hpair =>
            ih pair.1 (List.of_mem_zip hpair).1 (hzip pair hpair)
  | intersection members ih =>
      rw [resolve] at h
      split at h
      · exact absurd h (outcome_panic_ne_ok _ _ _)
      · next hne =>
        obtain ⟨hstrict, schemas, hall, rfl⟩ := combined_ok_iff.mp h
        obtain ⟨hlength, hzip⟩ := forall_zip_of_forall₂ hall
        exact .intersection (by simpa using hne) hstrict hlength fun pair hpair =>
          ih pair.1 (List.of_mem_zip hpair).1 (hzip pair hpair)

/-- The names of lists are none of the names that no schema can express. -/
theorem supported_of_list {name : Text} (h : name = "array" ∨ name = "list") :
    ¬ (name = "value-of" ∨ name = "key-of") := by
  rcases h with rfl | rfl <;> decide

/-- What comes from the rules is what resolution returns. -/
theorem Resolves.resolve_ok {expr : TypeExpr} {schema : Schema}
    (h : r.Resolves context expr schema) : (r.resolve context expr).outcome = .ok schema := by
  induction h with
  | builtin hbare hbuiltin =>
      rw [resolve, resolveIdentifier_ok_iff]
      exact ⟨hbare, .inl ⟨_, hbuiltin, rfl⟩⟩
  | reference hbuiltin htarget =>
      rw [resolve, resolveIdentifier_ok_iff]
      refine ⟨?_, .inr ⟨hbuiltin, _, htarget, rfl⟩⟩
      rintro - rfl
      exact absurd hbuiltin (by decide)
  | qualified _ ih =>
      simp only [resolve] at ih ⊢
      exact ih
  | nullable _ ih =>
      simp only [resolve, outcome_bind_ok_iff, outcome_pure_ok_iff]
      exact ⟨_, ih, rfl⟩
  | described _ ih =>
      simp only [resolve, outcome_bind_ok_iff, outcome_pure_ok_iff]
      exact ⟨_, ih, rfl⟩
  | arrayOf _ ih =>
      simp only [resolve, outcome_bind_ok_iff, outcome_pure_ok_iff]
      exact ⟨_, ih, rfl⟩
  | emptyList hname hempty =>
      rw [resolve, if_neg (supported_of_list hname)]
      simp only [if_pos hname, if_pos hempty]
      rfl
  | list hname hempty _ ih =>
      rw [resolve, if_neg (supported_of_list hname)]
      simp only [if_pos hname, hempty, Bool.false_eq_true, if_false, outcome_bind_ok_iff,
        outcome_pure_ok_iff]
      exact ⟨_, ih, rfl⟩
  | map _ ih =>
      rw [resolve, if_neg (by decide)]
      simp only [if_pos, outcome_bind_ok_iff, outcome_pure_ok_iff]
      exact ⟨_, ih, rfl⟩
  | range =>
      unfold resolve
      rw [if_neg (by decide)]
      simp only [if_neg (show ("int" : Text) ≠ "array" by decide), if_pos]
      rfl
  | shape hlength _ ih =>
      simp only [resolve, outcome_bind_ok_iff, outcome_pure_ok_iff, resolveFields_ok_iff]
      exact ⟨_, ⟨_, List.forall₂_iff_zip.mpr ⟨hlength, fun hpair => ih _ hpair⟩, rfl⟩, rfl⟩
  | literal hschema =>
      rw [resolve, hschema]
      rfl
  | @literals context members schema hschema =>
      have hne : members.isEmpty = false := by
        cases members with
        | nil => simp [Schema.ofLiterals?] at hschema
        | cons => rfl
      rw [resolve, hne, hschema]
      rfl
  | union hne hmixture hstrict hlength _ ih =>
      rw [resolve, if_neg (by simpa using hne), hmixture]
      have hall := List.forall₂_iff_zip.mpr ⟨hlength, fun hpair => ih _ hpair⟩
      exact combined_ok_iff.mpr ⟨hstrict, _, hall, rfl⟩
  | intersection hne hstrict hlength _ ih =>
      rw [resolve, if_neg (by simpa using hne)]
      have hall := List.forall₂_iff_zip.mpr ⟨hlength, fun hpair => ih _ hpair⟩
      exact combined_ok_iff.mpr ⟨hstrict, _, hall, rfl⟩

/-- **Resolution ends with a schema exactly if the rules give it.** -/
theorem resolve_ok_iff {expr : TypeExpr} {schema : Schema} :
    (r.resolve context expr).outcome = .ok schema ↔ r.Resolves context expr schema :=
  ⟨resolves_of_ok, Resolves.resolve_ok⟩

theorem Resolves.unique {expr : TypeExpr} {schema other : Schema}
    (h : r.Resolves context expr schema) (hother : r.Resolves context expr other) :
    schema = other :=
  Except.ok.inj (h.resolve_ok.symm.trans hother.resolve_ok)

/-- The same parts resolve to the same schemas. -/
theorem ResolvesAll.unique {exprs : List TypeExpr} {schemas others : List Schema}
    (h : r.ResolvesAll context exprs schemas) (h' : r.ResolvesAll context exprs others) :
    schemas = others := by
  refine List.right_unique_forall₂' (fun expr schema other hschema hother => ?_) h h'
  rw [hschema] at hother
  exact Except.ok.inj hother

theorem ResolvesAll.exists_iff {exprs : List TypeExpr} {schemas : List Schema}
    (h : r.ResolvesAll context exprs schemas) {p : List Schema → Prop} :
    (∃ others, r.ResolvesAll context exprs others ∧ p others) ↔ p schemas := by
  constructor
  · intro hleft
    obtain ⟨others, hothers, hp⟩ := hleft
    obtain rfl := h.unique hothers
    exact hp
  · intro hp
    exact ⟨schemas, h, hp⟩

/-- Parts that are there have schemas. -/
theorem ResolvesAll.ne_nil {exprs : List TypeExpr} {schemas : List Schema}
    (h : r.ResolvesAll context exprs schemas) (hne : exprs ≠ []) : schemas ≠ [] := by
  rintro rfl
  exact hne (List.forall₂_nil_right_iff.mp h)

/-- A union whose members resolve resolves too, unless it is strict about `mixed`. -/
theorem resolve_union_ok_iff {members : List TypeExpr} {schemas : List Schema} {schema : Schema}
    (hne : members ≠ [])
    (hall : r.ResolvesAll context members schemas) :
    (r.resolve context (.union members)).outcome = .ok schema ↔
      (r.strict = true → ∀ member ∈ members, member.isIdentifier "mixed" = false) ∧
        (Schema.ofLiterals? context members = some schema ∨
          Schema.ofLiterals? context members = none ∧
            Schema.combine context (Members.gather schemas).schemas (Members.gather schemas).nullable
              .union = schema) := by
  rw [resolve, if_neg (by simpa using hne)]
  cases hliterals : Schema.ofLiterals? context members with
  | some found =>
      -- literals are no names, so there is nothing to be strict about
      have hnames : ∀ member ∈ members, member.isIdentifier "mixed" = false := by
        intro member hmember
        obtain ⟨-, ⟨texts, rfl, -⟩ | ⟨values, rfl, -⟩⟩ := Schema.ofLiterals?_eq_some_iff.mp hliterals
        all_goals
          obtain ⟨literal, -, rfl⟩ := List.mem_map.mp hmember
          rfl
      simp only [outcome_pure_ok_iff, Option.some.injEq, reduceCtorEq, false_and, or_false]
      exact (and_iff_right fun _ => hnames).symm
  | none =>
      simp only [reduceCtorEq, true_and, false_or]
      exact combined_ok_iff.trans (and_congr_right fun _ => hall.exists_iff)

/-- An intersection whose members resolve resolves too, unless it is strict about `mixed`. -/
theorem resolve_intersection_ok_iff {members : List TypeExpr} {schemas : List Schema}
    {schema : Schema} (hne : members ≠ []) (hall : r.ResolvesAll context members schemas) :
    (r.resolve context (.intersection members)).outcome = .ok schema ↔
      (r.strict = true → ∀ member ∈ members, member.isIdentifier "mixed" = false) ∧
        Schema.combine context (Members.gather schemas).schemas (Members.gather schemas).nullable
          .intersection = schema := by
  rw [resolve, if_neg (by simpa using hne)]
  exact combined_ok_iff.trans (and_congr_right fun _ => hall.exists_iff)

/-- Every schema of a list of parts has its part. -/
theorem exists_part_of_mem {α : Type} {parts : List α} {schemas : List Schema}
    (hlength : parts.length = schemas.length) {schema : Schema} (h : schema ∈ schemas) :
    ∃ part, (part, schema) ∈ parts.zip schemas := by
  have hzip : (parts.zip schemas).map Prod.snd = schemas :=
    List.map_snd_zip (Nat.le_of_eq hlength.symm)
  rw [← hzip] at h
  obtain ⟨⟨part, found⟩, hpair, rfl⟩ := List.mem_map.mp h
  exact ⟨part, hpair⟩

/-- Every part of a list has its schema. -/
theorem exists_schema_of_mem {α : Type} {parts : List α} {schemas : List Schema}
    (hlength : parts.length = schemas.length) {part : α} (h : part ∈ parts) :
    ∃ schema, (part, schema) ∈ parts.zip schemas := by
  have hzip : (parts.zip schemas).map Prod.fst = parts := List.map_fst_zip (Nat.le_of_eq hlength)
  rw [← hzip] at h
  obtain ⟨⟨found, schema⟩, hpair, rfl⟩ := List.mem_map.mp h
  exact ⟨schema, hpair⟩

end Resolver

end Schemata

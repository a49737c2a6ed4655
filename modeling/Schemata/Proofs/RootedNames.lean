import Schemata.Proofs.Parts

/-!
# Rooted names

A backslash in front of a name roots it in the global namespace. Names are looked up without it, and
so an expression means the same with and without it, but for two places that look at a name as it is
written: `array` on its own is reported and `\array` is not, and the keys of a map have to be `string`,
not `\string`.

* **the expressions** — `TypeExpr.Roots` puts backslashes in front of some identifiers, also of keys;
* **the reports** — they agree if both end alike and record the same, but for diagnostics of one sort
  that the second leaves out (`Report.Agree`), which sequencing keeps (`Report.Agree.bind`);
* **a run** — the reports of two such expressions agree if no map in the second has the key `\string`
  (`Resolver.resolve_roots`). If one has then there is no schema (`Resolver.Resolves.key_eq`).

`Resolver.roots_agree` puts them together.
-/

namespace Schemata

open List (Forall₂)

namespace TypeExpr

/-! ## The expressions -/

/-- The second expression is the first with a backslash in front of some identifiers that have
none. -/
inductive Roots : TypeExpr → TypeExpr → Prop
  | same (name : Text) : Roots (.identifier name) (.identifier name)
  | rooted {name : Text} : name.unrooted = name →
      Roots (.identifier name) (.identifier ('\\' :: name))
  | qualified (parts : List Text) : Roots (.qualified parts) (.qualified parts)
  | nullable {inner other : TypeExpr} : Roots inner other →
      Roots (.nullable inner) (.nullable other)
  | union {members others : List TypeExpr} : members.length = others.length →
      (∀ pair ∈ members.zip others, Roots pair.1 pair.2) → Roots (.union members) (.union others)
  | intersection {members others : List TypeExpr} : members.length = others.length →
      (∀ pair ∈ members.zip others, Roots pair.1 pair.2) →
      Roots (.intersection members) (.intersection others)
  | arrayOf {element other : TypeExpr} : Roots element other →
      Roots (.arrayOf element) (.arrayOf other)
  | generic (name : Text) {args others : List TypeExpr} : args.length = others.length →
      (∀ pair ∈ args.zip others, Roots pair.1 pair.2) →
      Roots (.generic name args) (.generic name others)
  | shape {fields others : List (ShapeField TypeExpr)} :
      (fields.map fun field => (field.key, field.optional)) =
        (others.map fun other => (other.key, other.optional)) →
      (∀ pair ∈ fields.zip others, Roots pair.1.type pair.2.type) →
      Roots (.shape fields) (.shape others)
  | literal (value : Json) : Roots (.literal value) (.literal value)
  | described {inner other : TypeExpr} (description : Text) : Roots inner other →
      Roots (.described inner description) (.described other description)

/-- A map whose keys are of that name, as it is written, is a part of the expression. -/
def HasMapOf (key : Text) (expr : TypeExpr) : Prop :=
  ∃ element, Within (.generic "array" [.identifier key, element]) expr

namespace Roots

variable {expr other : TypeExpr}

theorem isIdentifier_eq (h : Roots expr other) (name : Text) :
    other.isIdentifier name = expr.isIdentifier name := by
  cases h with
  | rooted hname => exact congrArg (decide <| · = name) hname.symm
  | _ => rfl

theorem textLiteral?_eq (h : Roots expr other) : other.textLiteral? = expr.textLiteral? := by
  cases h <;> rfl

theorem intLiteral?_eq (h : Roots expr other) : other.intLiteral? = expr.intLiteral? := by
  cases h <;> rfl

theorem isEmpty_eq {members others : List TypeExpr} (h : Forall₂ Roots members others) :
    others.isEmpty = members.isEmpty := by
  cases h <;> rfl

theorem ofLiterals?_eq {members others : List TypeExpr} (h : Forall₂ Roots members others)
    (context : Text) : Schema.ofLiterals? context others = Schema.ofLiterals? context members := by
  have hmap : ∀ {α : Type} {literal? : TypeExpr → Option α},
      (∀ {expr other}, Roots expr other → literal? other = literal? expr) →
        others.mapM literal? = members.mapM literal? := by
    intro α literal? hliteral
    induction h with
    | nil => rfl
    | cons hmember _ ih => rw [List.mapM_cons, List.mapM_cons, hliteral hmember, ih]
  rw [Schema.ofLiterals?, Schema.ofLiterals?, hmap textLiteral?_eq, hmap intLiteral?_eq,
    isEmpty_eq h]

/-- A map with a rooted key. -/
theorem map {key : Text} (h : key.unrooted = key) (element : Text) :
    Roots (.generic "array" [.identifier key, .identifier element])
      (.generic "array" [.identifier ('\\' :: key), .identifier element]) := by
  refine .generic "array" rfl ?_
  rintro _ (_ | ⟨_, _ | ⟨_, ⟨⟩⟩⟩)
  · exact .rooted h
  · exact .same element

end Roots

end TypeExpr

/-- Of the fields of a shape, keys and options are looked at; the types are resolved before. -/
theorem Schema.ofShape_congr {fields others : List (ShapeField TypeExpr)}
    (h : (fields.map fun field => (field.key, field.optional)) =
      (others.map fun other => (other.key, other.optional)))
    (context : Text) (schemas : Fields Schema) :
    ofShape context fields schemas = ofShape context others schemas := by
  have hrequired : ∀ fields : List (ShapeField TypeExpr),
      (fields.filter fun field => !field.optional).map ShapeField.key =
        ((fields.map fun field => (field.key, field.optional)).filter fun field =>
          !field.2).map Prod.fst := by
    intro fields
    rw [List.filter_map, List.map_map]
    rfl
  rw [ofShape, ofShape, hrequired, h, ← hrequired]

/-! ## The reports -/

namespace Diagnostic

/-- The two diagnostics are of one severity and about one place. -/
structure AtOnePlace (left right : Diagnostic) : Prop where
  severity : right.severity = left.severity
  context : right.context = left.context

/-- The report of an `array` without arguments. -/
structure IsBareArray (entry : Diagnostic) : Prop where
  severity : entry.severity = .error
  problem : entry.problem = .bareArray

/-- The second list is the first without some diagnostics that `Dropped` allows to leave out, up to
what the others say. -/
inductive Thinned (Dropped : Diagnostic → Prop) : List Diagnostic → List Diagnostic → Prop
  | nil : Thinned Dropped [] []
  | keep {left right : Diagnostic} {lefts rights : List Diagnostic} : AtOnePlace left right →
      Thinned Dropped lefts rights → Thinned Dropped (left :: lefts) (right :: rights)
  | drop {left : Diagnostic} {lefts rights : List Diagnostic} : Dropped left →
      Thinned Dropped lefts rights → Thinned Dropped (left :: lefts) rights

namespace Thinned

variable {Dropped : Diagnostic → Prop} {lefts rights lefts' rights' : List Diagnostic}

theorem refl (entries : List Diagnostic) : Thinned Dropped entries entries := by
  induction entries with
  | nil => exact .nil
  | cons entry entries ih => exact .keep ⟨rfl, rfl⟩ ih

theorem append (h : Thinned Dropped lefts rights) (h' : Thinned Dropped lefts' rights') :
    Thinned Dropped (lefts ++ lefts') (rights ++ rights') := by
  induction h with
  | nil => exact h'
  | keep hentry _ ih => exact .keep hentry ih
  | drop hentry _ ih => exact .drop hentry ih

/-- If none may be left out then none is. -/
theorem forall₂ (h : Thinned Dropped lefts rights) (hnone : ∀ entry, ¬ Dropped entry) :
    Forall₂ AtOnePlace lefts rights := by
  induction h with
  | nil => exact .nil
  | keep hentry _ ih => exact .cons hentry ih
  | drop hentry => exact absurd hentry (hnone _)

end Thinned

end Diagnostic

/-- The two failures are the same but for what is said of the place. -/
inductive Failure.AtOnePlace : Failure → Failure → Prop
  | unrepresentable (context : Text) (problem other : Problem) :
      AtOnePlace (.unrepresentable context problem) (.unrepresentable context other)
  | same (failure : Failure) : AtOnePlace failure failure

namespace Report

/-- The two ends of a computation: one result, or failures in one place. -/
inductive EndsAlike {α : Type} : Except Failure α → Except Failure α → Prop
  | ok (value : α) : EndsAlike (.ok value) (.ok value)
  | error {failure other : Failure} : failure.AtOnePlace other →
      EndsAlike (.error failure) (.error other)

/-- The two reports end alike, and the second records what the first does but for diagnostics that
`Dropped` allows to leave out. -/
structure Agree (Dropped : Diagnostic → Prop) {α : Type} (left right : Report α) : Prop where
  entries : Diagnostic.Thinned Dropped left.entries right.entries
  outcome : EndsAlike left.outcome right.outcome

namespace Agree

variable {Dropped : Diagnostic → Prop} {α β : Type}

theorem refl (report : Report α) : Agree Dropped report report where
  entries := .refl _
  outcome := by
    cases report.outcome with
    | ok value => exact .ok value
    | error failure => exact .error (.same failure)

/-- Problems in one place. -/
theorem panic (context : Text) (problem other : Problem) :
    Agree Dropped (Report.panic context problem : Report α) (Report.panic context other) where
  entries := .keep ⟨rfl, rfl⟩ .nil
  outcome := .error (.unrepresentable context problem other)

/-- **Computations that agree step by step agree.** -/
theorem bind {left right : Report α} {next other : α → Report β} (h : Agree Dropped left right)
    (hnext : ∀ value, Agree Dropped (next value) (other value)) :
    Agree Dropped (left >>= next) (right >>= other) := by
  obtain ⟨lefts, leftOutcome⟩ := left
  obtain ⟨rights, rightOutcome⟩ := right
  obtain ⟨hentries, houtcome⟩ := h
  cases houtcome with
  | ok value => exact ⟨hentries.append (hnext value).entries, (hnext value).outcome⟩
  | error hfailure => exact ⟨hentries, .error hfailure⟩

end Agree

end Report

/-! ## A run -/

namespace Resolver

open TypeExpr Report

/-- The names of the parts do no harm: no key is `\string`, and a rooted `array` only leaves out a
diagnostic that may be left out. -/
structure Harmless (r : Resolver) (Dropped : Diagnostic → Prop) (expr : TypeExpr) : Prop where
  key : ¬ expr.HasMapOf "\\string"
  name : Within (.identifier "\\array") expr → r.strict = false ∧
    ∀ context, Dropped ⟨.error, context, .bareArray⟩

variable {r : Resolver} {Dropped : Diagnostic → Prop} {expr other : TypeExpr}

theorem Harmless.of_part {part : TypeExpr} (h : r.Harmless Dropped expr)
    (hpart : ∀ {inner}, Within inner part → Within inner expr) : r.Harmless Dropped part :=
  ⟨fun ⟨element, hkey⟩ => h.key ⟨element, hpart hkey⟩, fun hname => h.name (hpart hname)⟩

theorem resolveIdentifier_roots {name : Text} (hname : name.unrooted = name)
    (h : r.Harmless Dropped (.identifier ('\\' :: name))) (context : Text) :
    (r.resolveIdentifier context name).Agree Dropped
      (r.resolveIdentifier context ('\\' :: name)) := by
  have hrooted : Text.unrooted ('\\' :: name) = name.unrooted := hname.symm
  unfold resolveIdentifier
  rw [hrooted]
  refine .bind ?_ fun _ => .refl _
  -- only the report of a bare array is at stake
  have hother : ('\\' :: name : Text) ≠ "array" := by
    intro heq
    exact absurd (List.cons.inj heq).1 (by decide)
  rw [decide_eq_false hother]
  by_cases hbare : name = "array"
  · subst hbare
    obtain ⟨hlenient, hdropped⟩ := h.name (.refl _)
    rw [decide_eq_true rfl]
    unfold errorIf Report.error
    rw [hlenient]
    exact ⟨.drop (hdropped context) .nil, .ok ()⟩
  · rw [decide_eq_false hbare]
    exact .refl _

/-- What is to be shown of two expressions, for every context. -/
abbrev ResolveAlike (r : Resolver) (Dropped : Diagnostic → Prop) (expr other : TypeExpr) : Prop :=
  ∀ context, (r.resolve context expr).Agree Dropped (r.resolve context other)

theorem resolveFields_roots {fields others : List (ShapeField TypeExpr)} (context : Text)
    (hkeys : (fields.map fun field => (field.key, field.optional)) =
      (others.map fun other => (other.key, other.optional)))
    (h : Forall₂ (fun field other => r.ResolveAlike Dropped field.type other.type) fields others) :
    (r.resolveFields context fields).Agree Dropped (r.resolveFields context others) := by
  induction h with
  | nil => exact .refl _
  | cons hfield _ ih =>
      obtain ⟨hfirst, hrest⟩ := List.cons.inj hkeys
      obtain ⟨hkey, -⟩ := Prod.mk.inj hfirst
      simp only [resolveFields]
      rw [hkey]
      exact .bind (hfield context) fun _ => .bind (ih hrest) fun _ => .refl _

theorem resolveMembers_roots {members others : List TypeExpr} (context : Text)
    (h : Forall₂ (fun member other => member.Roots other ∧ r.ResolveAlike Dropped member other)
      members others) :
    (r.resolveMembers context members).Agree Dropped (r.resolveMembers context others) := by
  induction h with
  | nil => exact .refl _
  | cons hmember _ ih =>
      obtain ⟨hroots, halike⟩ := hmember
      simp only [resolveMembers, hroots.isIdentifier_eq]
      split
      · exact .bind ih fun _ => .refl _
      · exact .bind (.refl _) fun _ => .bind (halike context) fun _ => .bind ih fun _ => .refl _

theorem combined_roots {members others : List TypeExpr} (context : Text) (junction : Junction)
    (h : Forall₂ (fun member other => member.Roots other ∧ r.ResolveAlike Dropped member other)
      members others) :
    (do
      let resolved ← r.resolveMembers context members
      return Schema.combine context resolved.schemas resolved.nullable junction :
        Report Schema).Agree Dropped (do
      let resolved ← r.resolveMembers context others
      return Schema.combine context resolved.schemas resolved.nullable junction) :=
  .bind (resolveMembers_roots context h) fun _ => .refl _

/-- A rooted key is no key, and neither is the key that it is without the backslash. -/
theorem resolve_map_roots {first other element second : TypeExpr} (h : first.Roots other)
    (hharmless : r.Harmless Dropped (.generic "array" [other, second]))
    (halike : r.Harmless Dropped second → r.ResolveAlike Dropped element second) :
    r.ResolveAlike Dropped (.generic "array" [first, element])
      (.generic "array" [other, second]) := by
  intro context
  cases h with
  | same key =>
      simp only [resolve]
      by_cases hkey : key = "string"
      · subst hkey
        simp only [if_pos]
        exact .bind (halike (hharmless.of_part .map) _) fun _ => .refl _
      · simp only [if_neg hkey]
        exact .refl _
  | @rooted key hname =>
      have hkey : key ≠ "string" := by
        rintro rfl
        exact hharmless.key ⟨_, .refl _⟩
      have hother : ('\\' :: key : Text) ≠ "string" := by
        intro heq
        exact absurd (List.cons.inj heq).1 (by decide)
      simp only [resolve, if_neg hkey, if_neg hother]
      exact .panic _ _ _
  | _ => exact .panic _ _ _

theorem resolve_generic_roots {name : Text} {args others : List TypeExpr}
    (h : Forall₂ (fun arg other => arg.Roots other ∧
      (r.Harmless Dropped other → r.ResolveAlike Dropped arg other)) args others)
    (hharmless : r.Harmless Dropped (.generic name others)) :
    r.ResolveAlike Dropped (.generic name args) (.generic name others) := by
  intro context
  by_cases hsupported : name = "value-of" ∨ name = "key-of"
  · unfold resolve
    rw [if_pos hsupported, if_pos hsupported]
    exact .refl _
  · cases h with
    | nil =>
        simp only [resolve, if_neg hsupported]
        exact .refl _
    | cons hfirst hrest =>
        cases hrest with
        | nil =>
            -- one argument: a list
            simp only [resolve, if_neg hsupported, hfirst.1.isIdentifier_eq]
            split
            · next hname =>
              split
              · exact .refl _
              · exact .bind (hfirst.2 (hharmless.of_part (.list hname)) context) fun _ => .refl _
            · exact .panic _ _ _
        | cons hsecond hrest =>
            cases hrest with
            | nil =>
                -- two arguments: a map or a range
                by_cases hname : name = "array"
                · subst hname
                  exact resolve_map_roots hfirst.1 hharmless hsecond.2 context
                · simp only [resolve, if_neg hsupported, if_neg hname, hfirst.1.intLiteral?_eq,
                    hsecond.1.intLiteral?_eq]
                  split
                  · exact .refl _
                  · exact .panic _ _ _
            | cons _ _ =>
                simp only [resolve, if_neg hsupported]
                exact .panic _ _ _

/-- **The reports of two expressions agree if the second is the first with rooted names**, unless it
reads something that does harm. -/
theorem resolve_roots (h : expr.Roots other) (hharmless : r.Harmless Dropped other) :
    r.ResolveAlike Dropped expr other := by
  intro context
  induction h generalizing context with
  | same | qualified | literal => exact .refl _
  | rooted hname =>
      simp only [resolve]
      exact resolveIdentifier_roots hname hharmless context
  | nullable _ ih =>
      simp only [resolve]
      exact .bind (ih (hharmless.of_part .nullable) context) fun _ => .refl _
  | described _ _ ih =>
      simp only [resolve]
      exact .bind (ih (hharmless.of_part .described) context) fun _ => .refl _
  | arrayOf _ ih =>
      simp only [resolve]
      exact .bind (ih (hharmless.of_part .arrayOf) _) fun _ => .refl _
  | generic name hlength hzip ih =>
      have hall := List.forall₂_iff_zip.mpr ⟨hlength, fun hpair =>
        (⟨hzip _ hpair, fun hpart => ih _ hpair hpart⟩ : _ ∧ (_ → r.ResolveAlike Dropped _ _))⟩
      exact resolve_generic_roots hall hharmless context
  | shape hkeys hzip ih =>
      have hlength := congrArg List.length hkeys
      rw [List.length_map, List.length_map] at hlength
      have hall := List.forall₂_iff_zip.mpr ⟨hlength, fun hpair =>
        ih _ hpair (hharmless.of_part (.shape (List.of_mem_zip hpair).2))⟩
      simp only [resolve, Schema.ofShape_congr hkeys]
      exact .bind (resolveFields_roots context hkeys hall) fun _ => .refl _
  | union hlength hzip ih =>
      have hall := List.forall₂_iff_zip.mpr ⟨hlength, fun hpair =>
        And.intro (hzip _ hpair) (ih _ hpair (hharmless.of_part (.union (List.of_mem_zip hpair).2)))⟩
      have hroots := hall.imp fun _ _ h => h.1
      simp only [resolve, Roots.isEmpty_eq hroots, Roots.ofLiterals?_eq hroots]
      split
      · exact .refl _
      · split
        · exact .refl _
        · exact combined_roots context .union hall
  | intersection hlength hzip ih =>
      have hall := List.forall₂_iff_zip.mpr ⟨hlength, fun hpair => And.intro (hzip _ hpair)
        (ih _ hpair (hharmless.of_part (.intersection (List.of_mem_zip hpair).2)))⟩
      simp only [resolve, Roots.isEmpty_eq (hall.imp fun _ _ h => h.1)]
      split
      · exact .refl _
      · exact combined_roots context .intersection hall

/-- **Keys are `string`, as written**, wherever there is a schema. -/
theorem Resolves.key_eq {context key : Text} {schema : Schema}
    (h : r.Resolves context expr schema) (hmap : expr.HasMapOf key) : key = "string" := by
  obtain ⟨element, hpart⟩ := hmap
  obtain ⟨place, found, hfound⟩ := h.of_within hpart
  cases hfound
  rfl

/-- **No `array` stands on its own** where there is a schema and reporting is strict. -/
theorem Resolves.no_bare_array {context : Text} {schema : Schema}
    (h : r.Resolves context expr schema) (hstrict : r.strict = true) :
    ¬ Within (.identifier "array") expr := by
  intro hpart
  obtain ⟨place, found, hfound⟩ := h.of_within hpart
  cases hfound with
  | builtin hbare => exact hbare hstrict rfl
  | reference hbuiltin => exact absurd hbuiltin (by decide)

/-- **Rooting names changes nothing**, with two exceptions. Unless `\string` is the key of a map or
`\array` stands on its own, two expressions that differ by backslashes have one schema, or fail in one
place, and the diagnostics are of the same severities and in the same places. If `\array` stands there
then it is not reported as a bare array; that is the only difference if reporting is lenient, and if
it is strict then with `array` there is no schema. Nor is there one with a map of the key `\string`. -/
theorem roots_agree (h : expr.Roots other) (context : Text) :
    (¬ other.HasMapOf "\\string" → ¬ Within (.identifier "\\array") other →
      EndsAlike (r.resolve context expr).outcome (r.resolve context other).outcome ∧
        Forall₂ Diagnostic.AtOnePlace (r.resolve context expr).entries
          (r.resolve context other).entries) ∧
    (¬ other.HasMapOf "\\string" → r.strict = false →
      EndsAlike (r.resolve context expr).outcome (r.resolve context other).outcome ∧
        Diagnostic.Thinned Diagnostic.IsBareArray (r.resolve context expr).entries
          (r.resolve context other).entries) ∧
    (other.HasMapOf "\\string" → ∀ schema, (r.resolve context other).outcome ≠ .ok schema) ∧
    (Within (.identifier "array") expr → r.strict = true →
      ∀ schema, (r.resolve context expr).outcome ≠ .ok schema) := by
  refine ⟨fun hkey hname => ?_, fun hkey hlenient => ?_, fun hkey schema hschema => ?_,
    fun hname hstrict schema hschema => ?_⟩
  · have hharmless : r.Harmless (fun _ => False) other := ⟨hkey, fun h => absurd h hname⟩
    have hagree := resolve_roots h hharmless context
    exact ⟨hagree.outcome, hagree.entries.forall₂ fun _ => id⟩
  · have hharmless : r.Harmless Diagnostic.IsBareArray other :=
      ⟨hkey, fun _ => ⟨hlenient, fun _ => ⟨rfl, rfl⟩⟩⟩
    have hagree := resolve_roots h hharmless context
    exact ⟨hagree.outcome, hagree.entries⟩
  · exact absurd ((resolves_of_ok hschema).key_eq hkey) (by decide)
  · exact (resolves_of_ok hschema).no_bare_array hstrict hname

/-- A list of a rooted item is a list of the item. A rooted `array` has the schema of `array` and is
not reported; if reporting is strict then `array` has none. A map with a rooted key has no schema. -/
theorem roots_of_items :
    let r : Resolver := { definitions := .arr [.str "Item"] }
    EndsAlike (r.resolve "$" (.arrayOf (.identifier "Item"))).outcome
        (r.resolve "$" (.arrayOf (.identifier "\\Item"))).outcome ∧
      Diagnostic.Thinned Diagnostic.IsBareArray (r.resolve "$" (.identifier "array")).entries
        (r.resolve "$" (.identifier "\\array")).entries ∧
      (∀ schema, (r.resolve "$" (.generic "array"
        [.identifier "\\string", .identifier "int"])).outcome ≠ .ok schema) ∧
      ∀ schema, ({ r with strict := true }.resolve "$" (.identifier "array")).outcome ≠
        .ok schema := by
  intro r
  have hitem : (TypeExpr.arrayOf (.identifier "Item")).Roots (.arrayOf (.identifier "\\Item")) :=
    .arrayOf (.rooted rfl)
  have harray : (TypeExpr.identifier "array").Roots (.identifier "\\array") := .rooted rfl
  have hpart : ∀ {part : TypeExpr}, Within part (.arrayOf (.identifier "\\Item")) →
      part = .arrayOf (.identifier "\\Item") ∨ part = .identifier "\\Item" := by
    rintro part (_ | _ | _ | ⟨⟨⟩⟩)
    · exact .inl rfl
    · exact .inr rfl
  refine ⟨((roots_agree hitem "$").1 ?_ ?_).1, ((roots_agree harray "$").2.1 ?_ rfl).2,
    (roots_agree (Roots.map rfl "int") "$").2.2.1 ⟨_, .refl _⟩,
    (roots_agree harray "$").2.2.2 (.refl _) rfl⟩
  · rintro ⟨element, hmap⟩
    rcases hpart hmap with h | h <;> cases h
  · intro h
    rcases hpart h with h | h
    · cases h
    · exact absurd (TypeExpr.identifier.inj h) (by decide)
  · rintro ⟨element, ⟨⟩⟩

/-- `array` is reported and `\array` is not, and only one of the maps `array<string, int>` and
`array<\string, int>` has a schema. -/
theorem rooted_array_is_not_reported :
    let r : Resolver := {}
    let map := fun key : Text => TypeExpr.generic "array" [.identifier key, .identifier "int"]
    TypeExpr.Roots (.identifier "array") (.identifier "\\array") ∧
      (r.resolve "$" (.identifier "array")).entries.length = 1 ∧
      (r.resolve "$" (.identifier "\\array")).entries.length = 0 ∧
      (map "string").Roots (map "\\string") ∧
      (r.resolve "$" (map "string")).outcome.isOk = true ∧
      (r.resolve "$" (map "\\string")).outcome.isOk = false := by
  intro r map
  exact ⟨.rooted rfl, rfl, rfl, Roots.map rfl "int", rfl, rfl⟩

end Resolver

end Schemata

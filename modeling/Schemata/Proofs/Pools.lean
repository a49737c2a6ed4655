import Schemata.Proofs.Combination

/-!
# What merging leaves

The values that members list are put together type by type. `Schema.mergeEnums_eq` says what comes out of
that: the members without a list as they stand, and behind them one pool for each type that only members
with a list have. From this form follows how merging goes on:

* **again** — the pools have different types, and none that a member without a list has; so each of them
  is the only one of its type when they are merged again (`Schema.pool_merged`), and nothing changes
  (`Schema.mergeEnums_merged`);
* **one member more** — a member without a list closes the pool of its type, wherever it stands, and
  leaves the other pools as they are (`Schema.mergeEnums_insert`).
-/

namespace Schemata

namespace Schema

variable {members : List Schema}

/-! ## Again -/

theorem filter_isNone_merged (context : Text) (members : List Schema) :
    ((mergeEnums context members).filter fun member => member.enum.isNone) =
      members.filter fun member => member.enum.isNone := by
  have hpools : ((openTypes members).map (pooled context members)).filter
      (fun member => member.enum.isNone) = [] := by
    simp [pooled]
  rw [mergeEnums_eq, List.filter_append, hpools, List.append_nil, List.filter_filter]
  simp only [Bool.and_self]

theorem filter_isSome_merged (context : Text) (members : List Schema) :
    ((mergeEnums context members).filter fun member => member.enum.isSome) =
      (openTypes members).map (pooled context members) := by
  have hplain : (members.filter fun member => member.enum.isNone).filter
      (fun member => member.enum.isSome) = [] := by
    simp +contextual [Option.isSome_iff_ne_none]
  rw [mergeEnums_eq, List.filter_append, hplain, List.nil_append, List.filter_eq_self]
  intro member hmember
  obtain ⟨type, -, rfl⟩ := List.mem_map.mp hmember
  rfl

/-- What was merged lists values of the types that are left, each once. -/
theorem enumTypes_merged (context : Text) (members : List Schema) :
    enumTypes (mergeEnums context members) = openTypes members := by
  rw [enumTypes, filter_isSome_merged, List.map_map]
  have htypes : (openTypes members).map (Schema.type ∘ pooled context members) =
      openTypes members :=
    List.map_id _
  rw [htypes, eraseDups_of_nodup (nodup_openTypes members)]

theorem openTypes_merged (context : Text) (members : List Schema) :
    openTypes (mergeEnums context members) = openTypes members := by
  rw [openTypes, enumTypes_merged, filter_isNone_merged, openTypes, List.filter_filter]
  simp only [Bool.and_self]

/-- In a list without repetitions, what only one element contributes stands alone. -/
theorem flatMap_of_nodup {α β : Type} {f : α → List β} {elements : List α} {element : α}
    (hnodup : elements.Nodup) (hmem : element ∈ elements)
    (hother : ∀ other, other ≠ element → f other = []) : elements.flatMap f = f element := by
  obtain ⟨before, after, rfl⟩ := List.append_of_mem hmem
  obtain ⟨-, hafter, hbefore⟩ := List.nodup_append.mp hnodup
  have hleft : before.flatMap f = [] :=
    List.flatMap_eq_nil_iff.mpr fun other h => hother other (hbefore other h element List.mem_cons_self)
  have hright : after.flatMap f = [] :=
    List.flatMap_eq_nil_iff.mpr fun other h =>
      hother other fun heq => (List.nodup_cons.mp hafter).1 (heq ▸ h)
  rw [List.flatMap_append, List.flatMap_cons, hleft, hright, List.nil_append, List.append_nil]

/-- **A pool is the only one of its type**, so it keeps its values. -/
theorem pool_merged (context : Text) {type : Option Text} (h : type ∈ openTypes members) :
    pool type (mergeEnums context members) = pool type members := by
  have hplain : (members.filter fun member => member.enum.isNone).flatMap (literalsOf type) = [] := by
    refine List.flatMap_eq_nil_iff.mpr fun member hmember => ?_
    have hnone : member.enum = none := by simpa using (List.mem_filter.mp hmember).2
    rw [literalsOf, hnone, Option.getD_none, ite_self]
  rw [mergeEnums_eq, pool, List.flatMap_append, hplain, List.nil_append, List.flatMap_map]
  calc (openTypes members).flatMap (fun known => literalsOf type (pooled context members known))
      _ = literalsOf type (pooled context members type) :=
        flatMap_of_nodup (nodup_openTypes members) h fun _ hne => literalsOf_of_ne hne
      _ = pool type members := literalsOf_self rfl

/-- **What was merged is merged already**: only the contexts of the pools are new. -/
theorem mergeEnums_merged (context inner : Text) (members : List Schema) :
    mergeEnums context (mergeEnums inner members) = mergeEnums context members := by
  rw [mergeEnums_eq context (mergeEnums inner members), mergeEnums_eq context members,
    filter_isNone_merged, openTypes_merged]
  refine congrArg _ (List.map_congr_left fun type htype => ?_)
  rw [pooled, pooled, pool_merged inner htype]

/-! ## One member more -/

section Insert

variable (before after : List Schema) {member : Schema} (hplain : member.enum = none)
include hplain

theorem pool_insert (type : Option Text) :
    pool type (before ++ member :: after) = pool type (before ++ after) := by
  have hnone : literalsOf type member = [] := by rw [literalsOf, hplain, Option.getD_none, ite_self]
  rw [pool, pool, List.flatMap_append, List.flatMap_cons, hnone, List.nil_append, List.flatMap_append]

/-- A member without a list closes the pool of its type. -/
theorem openTypes_insert :
    openTypes (before ++ member :: after) =
      (openTypes (before ++ after)).filter fun type => type ≠ member.type := by
  have htypes : enumTypes (before ++ member :: after) = enumTypes (before ++ after) := by
    simp [enumTypes, hplain]
  rw [openTypes, openTypes, htypes, List.filter_filter]
  -- the new member is one more that must not have the type
  refine List.filter_congr fun type _ => ?_
  rw [Bool.eq_iff_iff]
  simp only [List.filter_append, List.filter_cons, hplain, Option.isNone_none, if_true,
    List.any_append, List.any_cons, Bool.not_or, Bool.and_eq_true, Bool.not_eq_true',
    decide_eq_true_eq, decide_eq_false_iff_not, ne_comm]
  exact and_left_comm

/-- **A member without a list takes the pool of its type away and changes no other.** -/
theorem mergeEnums_insert (context : Text) :
    mergeEnums context (before ++ member :: after) =
      before.filter (fun plain => plain.enum.isNone) ++
        member :: after.filter (fun plain => plain.enum.isNone) ++
        (mergeEnums context (before ++ after)).filter fun pool =>
          pool.type ≠ member.type && pool.enum.isSome := by
  have hothers : ((mergeEnums context (before ++ after)).filter fun pool =>
      pool.type ≠ member.type && pool.enum.isSome) =
      ((openTypes (before ++ after)).filter fun type => type ≠ member.type).map
        (pooled context (before ++ after)) := by
    rw [← List.filter_filter, filter_isSome_merged, List.filter_map]
    rfl
  have hpools : pooled context (before ++ member :: after) = pooled context (before ++ after) := by
    funext type
    rw [pooled, pooled, pool_insert before after hplain]
  rw [hothers, mergeEnums_eq, openTypes_insert before after hplain, hpools, List.filter_append,
    List.filter_cons, if_pos (by rw [hplain]; rfl)]

end Insert

/-- **Merging puts together what members of one type list**: behind the members without a list, there is
one pool for each type that only members with a list have, in the order in which the types first come,
with all their values in order. Merging again changes nothing, and a member without a list, wherever it is
put in, takes the pool of its type away and no other. -/
theorem mergeEnums_pools_by_type (context : Text) (members : List Schema) :
    (mergeEnums context members =
      members.filter (fun member => member.enum.isNone) ++
        (openTypes members).map fun type => { context, type, enum := some (pool type members) }) ∧
    (∀ type, type ∈ openTypes members ↔
      (∃ member ∈ members, member.enum.isSome = true ∧ member.type = type) ∧
        ∀ member ∈ members, member.enum = none → member.type ≠ type) ∧
    (openTypes members).Sublist
      ((members.filter fun member => member.enum.isSome).map Schema.type).eraseDups ∧
    (∀ type, pool type members = members.flatMap fun member =>
      if member.type = type then member.enum.getD [] else []) ∧
    mergeEnums context (mergeEnums context members) = mergeEnums context members ∧
    ∀ before after member, members = before ++ after → member.enum = none →
      mergeEnums context (before ++ member :: after) =
        before.filter (fun plain => plain.enum.isNone) ++
          member :: after.filter (fun plain => plain.enum.isNone) ++
          (mergeEnums context members).filter fun pool =>
            pool.type ≠ member.type && pool.enum.isSome := by
  refine ⟨mergeEnums_eq context members, fun _ => mem_openTypes, List.filter_sublist, fun _ => rfl,
    mergeEnums_merged context context members, ?_⟩
  rintro before after member rfl hplain
  exact mergeEnums_insert before after hplain context

/-- A text of some length comes to a list of texts and a list of integers: the list of integers is left,
in a pool of its own. -/
theorem pool_of_integers_is_left :
    let texts : Schema := { type := some "string", enum := some [.str "a"] }
    let long : Schema := { type := some "string", minLength := some 1 }
    let integers : Schema := { int64 with enum := some [.int 1] }
    long.enum = none ∧
      mergeEnums "$" ([texts] ++ long :: [integers]) =
        [long, { context := "$", type := some "integer", enum := some [.int 1] }] := by
  intro texts long integers
  obtain ⟨-, -, -, -, -, hinsert⟩ := mergeEnums_pools_by_type "$" [texts, integers]
  have h := hinsert [texts] [integers] long rfl rfl
  have hpools : mergeEnums "$" [texts, integers] =
      [{ context := "$", type := some "string", enum := some [.str "a"] },
        { context := "$", type := some "integer", enum := some [.int 1] }] := rfl
  rw [hpools] at h
  exact ⟨rfl, h⟩

end Schema

end Schemata

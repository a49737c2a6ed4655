import Schemata.Proofs.Sameness
import Schemata.Schema.Combine

/-!
# How members are combined

The three steps of `Schema.combine`, each with what it leaves of its members:

* **deduplication** keeps the head and, of the rest, what is not the same as it
  (`Schema.deduplicate_cons`): the members left differ pairwise, and each member is the same as one
  of them. Where members tell their sources apart, the first occurrences of the sources are left
  (`Schema.deduplicate_map`);
* **pooling** puts the allowed values of each type into one list, in the order of the members
  (`Schema.EnumGroups.ofMembers_eq`); a type that a member has without such a list has no pool left
  (`Schema.mem_mergeEnums_iff`). Members of one type come to one pool or are all plain
  (`Schema.mergeEnums_of_listed`, `Schema.mergeEnums_of_plain`);
* **the form** — a single member is returned itself, two or more are put into one of three lists
  (`Schema.combine_cases`).
-/

namespace Schemata

namespace Schema

/-! ## Deduplication -/

/-- Whether no member kept so far is the same. -/
def isNew (kept : List Schema) (member : Schema) : Bool := !kept.any (same member)

theorem isNew_iff {kept : List Schema} {member : Schema} :
    isNew kept member = true ↔ ∀ other ∈ kept, ¬ Same member other := by
  simp [isNew, Same]

/-- Being new carries over to members that are the same. -/
theorem isNew_of_same {kept : List Schema} {left right : Schema} (h : Same left right)
    (hnew : isNew kept left = true) : isNew kept right = true := by
  rw [isNew_iff] at hnew ⊢
  exact fun other hother hsame => hnew other hother ((same_equivalentAt left).trans h hsame)

/-- The loop with members kept from before adds those of the others that are new to them. -/
theorem foldl_keep_eq (members kept : List Schema) :
    members.foldl (fun kept member => if kept.any (same member) then kept else kept ++ [member])
      kept = kept ++ (deduplicate members).filter (isNew kept) := by
  induction members generalizing kept with
  | nil => simp [deduplicate]
  | cons member members ih =>
      have hcons : deduplicate (member :: members) =
          member :: (deduplicate members).filter (isNew [member]) := by
        show List.foldl _ _ _ = _
        rw [List.foldl_cons, ih]
        rfl
      rw [List.foldl_cons, hcons, ih, List.filter_cons]
      by_cases hkept : kept.any (same member) = true
      · -- the head is known: whatever is new to the kept ones is not the same as it
        have hnotNew : isNew kept member = false := by simp [isNew, hkept]
        have hfilter : ∀ other : Schema, isNew kept other = true → isNew [member] other = true := by
          intro other hother
          rw [isNew_iff]
          rintro _ hmem hsame
          obtain rfl := List.mem_singleton.mp hmem
          rw [isNew_of_same hsame hother] at hnotNew
          exact Bool.true_eq_false.mp hnotNew
        rw [if_pos hkept, if_neg (by simp [hnotNew]), List.filter_filter]
        congr 1
        refine List.filter_congr fun other _ => ?_
        cases hother : isNew kept other with
        | true => rw [hfilter other hother, Bool.and_true]
        | false => rw [Bool.false_and]
      · have hnew : isNew kept member = true := by simpa [isNew] using hkept
        rw [if_neg hkept, if_pos hnew, List.append_assoc, List.filter_filter]
        refine congrArg _ (congrArg (member :: ·) (List.filter_congr fun other _ => ?_))
        simp [isNew, List.any_append]

/-- **Deduplication keeps the head and what is not the same as it.** -/
theorem deduplicate_cons (member : Schema) (members : List Schema) :
    deduplicate (member :: members) =
      member :: (deduplicate members).filter (isNew [member]) := by
  show List.foldl _ _ _ = _
  rw [List.foldl_cons, foldl_keep_eq]
  rfl

theorem mem_of_mem_deduplicate {members : List Schema} {member : Schema}
    (h : member ∈ deduplicate members) : member ∈ members := by
  induction members with
  | nil => exact h
  | cons head members ih =>
      rw [deduplicate_cons] at h
      rcases List.mem_cons.mp h with rfl | h
      · exact List.mem_cons_self
      · exact List.mem_cons_of_mem _ (ih (List.mem_filter.mp h).1)

/-- Each member is the same as one that is kept. -/
theorem exists_same_of_mem {members : List Schema} {member : Schema} (h : member ∈ members) :
    ∃ kept ∈ deduplicate members, Same member kept := by
  induction members with
  | nil => exact absurd h List.not_mem_nil
  | cons head members ih =>
      rw [deduplicate_cons]
      rcases List.mem_cons.mp h with rfl | h
      · exact ⟨member, List.mem_cons_self, (same_equivalentAt member).refl⟩
      · obtain ⟨kept, hkept, hsame⟩ := ih h
        by_cases hnew : isNew [head] kept = true
        · exact ⟨kept, List.mem_cons_of_mem _ (List.mem_filter.mpr ⟨hkept, hnew⟩), hsame⟩
        · have hhead : Same kept head := by simpa [isNew] using hnew
          exact ⟨head, List.mem_cons_self, (same_equivalentAt member).trans hsame hhead⟩

/-- No two of the members kept are the same. -/
theorem deduplicate_pairwise (members : List Schema) :
    (deduplicate members).Pairwise fun left right => left.same right = false := by
  induction members with
  | nil => exact .nil
  | cons head members ih =>
      rw [deduplicate_cons]
      refine .cons (fun other hother => ?_) (ih.filter _)
      have hnew := isNew_iff.mp (List.mem_filter.mp hother).2 head List.mem_cons_self
      exact Bool.eq_false_iff.mpr fun hsame => hnew (same_symm hsame)

theorem deduplicate_concat (members : List Schema) (member : Schema) :
    deduplicate (members ++ [member]) =
      if (deduplicate members).any (same member) then deduplicate members
      else deduplicate members ++ [member] := by
  rw [deduplicate, List.foldl_append]
  rfl

/-- **Of schemas that tell their sources apart the first occurrences are kept.** -/
theorem deduplicate_map {α : Type} [BEq α] [LawfulBEq α] {f : α → Schema}
    (hf : ∀ a b, Same (f a) (f b) ↔ a = b) (elements : List α) :
    deduplicate (elements.map f) = elements.eraseDups.map f := by
  induction elements using List.reverseRecOn with
  | nil => rfl
  | append_singleton elements element ih =>
      have hknown : (elements.eraseDups.map f).any (same (f element)) = true ↔ element ∈ elements := by
        simp only [List.any_map, List.any_eq_true, Function.comp_apply, List.mem_eraseDups]
        constructor
        · rintro ⟨other, hother, hsame⟩
          exact (hf element other).mp hsame ▸ hother
        · exact fun h => ⟨element, h, (hf element element).mpr rfl⟩
      rw [List.map_append, List.map_singleton, deduplicate_concat, ih]
      by_cases h : element ∈ elements
      · rw [if_pos (hknown.mpr h), eraseDups_concat_of_mem h]
      · rw [if_neg (mt hknown.mp h), eraseDups_concat_of_not_mem h, List.map_append,
          List.map_singleton]

/-! ## Pooling -/

/-- The values that a member allows of a type, if it lists them. -/
def literalsOf (type : Option Text) (member : Schema) : List Json :=
  if member.type = type then member.enum.getD [] else []

/-- The values that members allow of a type. -/
def pool (type : Option Text) (members : List Schema) : List Json :=
  members.flatMap (literalsOf type)

theorem mem_pool {type : Option Text} {members : List Schema} {value : Json} :
    value ∈ pool type members ↔
      ∃ member ∈ members, member.type = type ∧ ∃ values ∈ member.enum, value ∈ values := by
  refine List.mem_flatMap.trans (exists_congr fun member => and_congr_right fun _ => ?_)
  rw [literalsOf]
  by_cases htype : member.type = type <;> cases member.enum <;> simp [htype]

/-- The types of the members that list their values, in the order in which they come first. -/
def enumTypes (members : List Schema) : List (Option Text) :=
  ((members.filter fun member => member.enum.isSome).map Schema.type).eraseDups

theorem mem_enumTypes {members : List Schema} {type : Option Text} :
    type ∈ enumTypes members ↔
      ∃ member ∈ members, member.enum.isSome = true ∧ member.type = type := by
  simp [enumTypes, List.mem_eraseDups, and_assoc]

theorem nodup_enumTypes (members : List Schema) : (enumTypes members).Nodup := nodup_eraseDups _

theorem literalsOf_self {member : Schema} {values : List Json} (h : member.enum = some values) :
    literalsOf member.type member = values := by
  rw [literalsOf, if_pos rfl, h, Option.getD_some]

theorem literalsOf_of_ne {member : Schema} {type : Option Text} (h : member.type ≠ type) :
    literalsOf type member = [] :=
  if_neg h

theorem pool_concat (type : Option Text) (members : List Schema) (member : Schema) :
    pool type (members ++ [member]) = pool type members ++ literalsOf type member := by
  simp [pool]

/-- Where no member lists values of a type, the type has no pool. -/
theorem pool_eq_nil {type : Option Text} {members : List Schema} (h : type ∉ enumTypes members) :
    pool type members = [] := by
  refine List.eq_nil_iff_forall_not_mem.mpr fun value hvalue => ?_
  obtain ⟨member, hmember, htype, values, hvalues, -⟩ := mem_pool.mp hvalue
  exact h (mem_enumTypes.mpr ⟨member, hmember, by simp [Option.mem_def.mp hvalues], htype⟩)

/-- A member that lists its values adds its type, unless the type is known. -/
theorem enumTypes_concat {members : List Schema} {member : Schema}
    (h : member.enum.isSome = true) :
    enumTypes (members ++ [member]) =
      (((members.filter fun member => member.enum.isSome).map Schema.type) ++
        [member.type]).eraseDups := by
  simp [enumTypes, h]

namespace EnumGroups

/-- Adding values of a known type extends the group of the type, and no other. -/
theorem add_of_mem {types : List (Option Text)} {type : Option Text}
    {values grown : Option Text → List Json} {more : List Json} (hnodup : types.Nodup)
    (h : type ∈ types) (hgrown : grown type = values type ++ more)
    (hkept : ∀ known, known ≠ type → grown known = values known) :
    add (types.map fun known => (known, values known)) type more =
      types.map fun known => (known, grown known) := by
  induction types with
  | nil => exact absurd h List.not_mem_nil
  | cons first types ih =>
      obtain ⟨hfirst, hrest⟩ := List.nodup_cons.mp hnodup
      rw [List.map_cons, List.map_cons, add]
      by_cases heq : first = type
      · -- the type stands once, so the rest is kept
        subst heq
        rw [if_pos rfl, hgrown]
        refine congrArg _ (List.map_congr_left fun known hknown => ?_)
        rw [hkept known fun he => hfirst (he ▸ hknown)]
      · rw [if_neg heq, hkept first heq]
        exact congrArg _ (ih hrest ((List.mem_cons.mp h).resolve_left (Ne.symm heq)))

/-- Adding values of a new type starts a group. -/
theorem add_of_not_mem {types : List (Option Text)} {type : Option Text}
    {values : Option Text → List Json} {more : List Json} (h : type ∉ types) :
    add (types.map fun known => (known, values known)) type more =
      types.map (fun known => (known, values known)) ++ [(type, more)] := by
  induction types with
  | nil => rfl
  | cons first types ih =>
      rw [List.mem_cons, not_or] at h
      rw [List.map_cons, add, if_neg (Ne.symm h.1), ih h.2, List.cons_append]

theorem ofMembers_concat (members : List Schema) (member : Schema) :
    ofMembers (members ++ [member]) =
      (member.enum.map (add (ofMembers members) member.type)).getD (ofMembers members) := by
  cases hlisted : member.enum <;> simp [ofMembers, hlisted]

/-- **The groups are the pools of the types, in the order of the types.** -/
theorem ofMembers_eq (members : List Schema) :
    ofMembers members = (enumTypes members).map fun type => (type, pool type members) := by
  induction members using List.reverseRecOn with
  | nil => rfl
  | append_singleton members member ih =>
      rw [ofMembers_concat]
      cases hlisted : member.enum with
      | none =>
          have hliterals : ∀ type, literalsOf type member = [] := by simp [literalsOf, hlisted]
          simp [ih, enumTypes, hlisted, pool_concat, hliterals]
      | some values =>
          have hkept : ∀ known, known ≠ member.type →
              pool known (members ++ [member]) = pool known members := by
            intro known hne
            rw [pool_concat, literalsOf_of_ne (Ne.symm hne), List.append_nil]
          have hgrown : pool member.type (members ++ [member]) =
              pool member.type members ++ values := by
            rw [pool_concat, literalsOf_self hlisted]
          rw [Option.map_some, Option.getD_some, ih, enumTypes_concat (by simp [hlisted])]
          by_cases hknown : member.type ∈ enumTypes members
          · rw [eraseDups_concat_of_mem (List.mem_eraseDups.mp hknown)]
            exact add_of_mem (nodup_enumTypes members) hknown hgrown hkept
          · rw [eraseDups_concat_of_not_mem (mt List.mem_eraseDups.mpr hknown), List.map_append,
              List.map_singleton, hgrown, pool_eq_nil hknown, List.nil_append,
              add_of_not_mem hknown]
            refine congrArg (· ++ _) (List.map_congr_left fun type htype => ?_)
            rw [hkept type fun heq => hknown (heq ▸ htype)]

end EnumGroups

/-- The member that lists the values which other members allow of a type. -/
def pooled (context : Text) (members : List Schema) (type : Option Text) : Schema :=
  { context, type, enum := some (pool type members) }

/-- The types with a pool that is left: no member without a list has the type. -/
def openTypes (members : List Schema) : List (Option Text) :=
  (enumTypes members).filter fun type =>
    !(members.filter fun member => member.enum.isNone).any fun member => member.type = type

theorem mem_openTypes {members : List Schema} {type : Option Text} :
    type ∈ openTypes members ↔
      (∃ member ∈ members, member.enum.isSome = true ∧ member.type = type) ∧
        ∀ member ∈ members, member.enum = none → member.type ≠ type := by
  simp [openTypes, mem_enumTypes]

theorem nodup_openTypes (members : List Schema) : (openTypes members).Nodup :=
  (nodup_enumTypes members).filter _

/-- **Merging keeps the members without a list and adds one member for each type that is left.** -/
theorem mergeEnums_eq (context : Text) (members : List Schema) :
    mergeEnums context members =
      (members.filter fun member => member.enum.isNone) ++
        (openTypes members).map (pooled context members) := by
  simp only [mergeEnums, EnumGroups.ofMembers_eq, List.filter_map, List.map_map, openTypes]
  rfl

theorem mem_mergeEnums_iff {context : Text} {members : List Schema} {member : Schema} :
    member ∈ mergeEnums context members ↔
      member ∈ members ∧ member.enum = none ∨
        ∃ type ∈ openTypes members, member = pooled context members type := by
  rw [mergeEnums_eq, List.mem_append, List.mem_filter, List.mem_map, Option.isNone_iff_eq_none]
  exact or_congr_right (exists_congr fun _ => and_congr_right fun _ => eq_comm)

/-- If the type of a list of values has no pool then a member without a list has the type. -/
theorem exists_plain_of_not_open {members : List Schema} {member : Schema} (h : member ∈ members)
    (hlisted : member.enum.isSome = true) (hclosed : member.type ∉ openTypes members) :
    ∃ plain ∈ members, plain.enum = none ∧ plain.type = member.type := by
  by_contra hnone
  refine hclosed (mem_openTypes.mpr ⟨⟨member, h, hlisted, rfl⟩, ?_⟩)
  exact fun plain hmem henum htype => hnone ⟨plain, hmem, henum, htype⟩

/-- Every member leaves a member of its type behind, itself if it has no list. -/
theorem exists_merged_of_mem (context : Text) {members : List Schema} {member : Schema}
    (h : member ∈ members) :
    ∃ merged ∈ mergeEnums context members, merged.type = member.type ∧
      (member.enum = none → merged = member) := by
  by_cases hlisted : member.enum.isSome = true
  · have hsome : member.enum ≠ none := Option.isSome_iff_ne_none.mp hlisted
    by_cases hopen : member.type ∈ openTypes members
    · exact ⟨_, mem_mergeEnums_iff.mpr (.inr ⟨_, hopen, rfl⟩), rfl, fun hnone => absurd hnone hsome⟩
    · obtain ⟨plain, hmem, henum, htype⟩ := exists_plain_of_not_open h hlisted hopen
      exact ⟨plain, mem_mergeEnums_iff.mpr (.inl ⟨hmem, henum⟩), htype,
        fun hnone => absurd hnone hsome⟩
  · exact ⟨member, mem_mergeEnums_iff.mpr (.inl ⟨h, by simpa using hlisted⟩), rfl, fun _ => rfl⟩

/-- Members that are merged have different types wherever one of them lists its values. -/
theorem mergeEnums_pairwise_type (context : Text) (members : List Schema) :
    (mergeEnums context members).Pairwise fun left right =>
      left.enum.isSome = true ∨ right.enum.isSome = true → left.type ≠ right.type := by
  rw [mergeEnums_eq]
  -- two members without a list, two pools, and one of each
  refine List.pairwise_append.mpr ⟨?_, ?_, ?_⟩
  · refine List.pairwise_of_forall_mem_list fun left hleft right hright hlisted => ?_
    have hnone := (List.mem_filter.mp hleft).2
    have hnone' := (List.mem_filter.mp hright).2
    simp_all
  · have hdistinct : (openTypes members).Pairwise (· ≠ ·) := (nodup_enumTypes members).filter _
    rw [List.pairwise_map]
    refine hdistinct.imp ?_
    intro left right hne _
    exact hne
  · intro plain hplain _ hpooled _
    obtain ⟨type, htype, rfl⟩ := List.mem_map.mp hpooled
    obtain ⟨hmem, hnone⟩ := List.mem_filter.mp hplain
    exact (mem_openTypes.mp htype).2 plain hmem (by simpa using hnone)

/-- Members that differ pairwise still do when they are merged. -/
theorem mergeEnums_pairwise_same (context : Text) {members : List Schema}
    (h : members.Pairwise fun left right => left.same right = false) :
    (mergeEnums context members).Pairwise fun left right => left.same right = false := by
  -- where a pool is involved the types differ already
  have hlisted : ∀ {left right : Schema}, left.type ≠ right.type → left.same right = false :=
    fun hne => Bool.eq_false_iff.mpr fun hsame => hne (same_iff.mp hsame).type
  have htypes := mergeEnums_pairwise_type context members
  rw [mergeEnums_eq] at htypes ⊢
  obtain ⟨-, hpooled, hmixed⟩ := List.pairwise_append.mp htypes
  have hsome : ∀ member ∈ (openTypes members).map (pooled context members),
      member.enum.isSome = true := by
    intro member hmember
    obtain ⟨type, -, rfl⟩ := List.mem_map.mp hmember
    rfl
  refine List.pairwise_append.mpr ⟨h.filter _, ?_, ?_⟩
  · exact hpooled.imp_of_mem fun hleft _ himp => hlisted (himp (.inl (hsome _ hleft)))
  · exact fun left hleft right hright =>
      hlisted (hmixed left hleft right hright (.inr (hsome right hright)))

section OneType

variable {context : Text} {members : List Schema} {type : Option Text}
  (htype : ∀ member ∈ members, member.type = type)
include htype

/-- Members of one type that all list values are merged to one pool. -/
theorem mergeEnums_of_listed (hne : members ≠ []) (hlisted : ∀ member ∈ members, member.enum ≠ none) :
    mergeEnums context members = [pooled context members type] := by
  have hplain : (members.filter fun member => member.enum.isNone) = [] := by
    simpa using hlisted
  have hopen : openTypes members = [type] := by
    refine List.perm_singleton.mp ((List.perm_ext_iff_of_nodup (nodup_openTypes members)
      (List.nodup_singleton type)).mpr fun known => ?_)
    rw [mem_openTypes, List.mem_singleton]
    constructor
    · rintro ⟨⟨member, hmember, -, rfl⟩, -⟩
      exact htype member hmember
    · rintro rfl
      obtain ⟨member, hmember⟩ := List.exists_mem_of_ne_nil members hne
      exact ⟨⟨member, hmember, Option.isSome_iff_ne_none.mpr (hlisted member hmember),
        htype member hmember⟩, fun plain hmem hnone => absurd hnone (hlisted plain hmem)⟩
  rw [mergeEnums_eq, hplain, hopen, List.nil_append, List.map_singleton]

/-- If one of them lists no values, those that do are dropped. -/
theorem mergeEnums_of_plain {plain : Schema} (hmem : plain ∈ members) (hnone : plain.enum = none) :
    mergeEnums context members = members.filter fun member => member.enum.isNone := by
  have hopen : openTypes members = [] := by
    refine List.eq_nil_iff_forall_not_mem.mpr fun known hknown => ?_
    obtain ⟨⟨member, hmember, -, rfl⟩, hclosed⟩ := mem_openTypes.mp hknown
    exact hclosed plain hmem hnone ((htype plain hmem).trans (htype member hmember).symm)
  rw [mergeEnums_eq, hopen, List.map_nil, List.append_nil]

end OneType

/-! ## The form -/

/-- The members that a combination is made of. -/
def mergedMembers (context : Text) (members : List Schema) : List Schema :=
  mergeEnums context (deduplicate members)

/-- **What is combined is nothing, one member, or a list of two or more in one of three forms.** -/
theorem combine_cases (context : Text) (members : List Schema) (nullable : Bool)
    (junction : Junction) :
    (mergedMembers context members = [] ∧
        combine context members nullable junction = { context, nullable }) ∨
      (∃ member ∈ mergedMembers context members, mergedMembers context members = [member] ∧
        combine context members nullable junction = { member with nullable := nullable }) ∨
      2 ≤ (mergedMembers context members).length ∧
        (junction = .intersection ∧ combine context members nullable junction =
            { context, nullable, allOf := some (mergedMembers context members) } ∨
          junction = .union ∧ areDistinguished (mergedMembers context members) = true ∧
            combine context members nullable junction =
              { context, nullable, oneOf := some (mergedMembers context members) } ∨
          junction = .union ∧ areDistinguished (mergedMembers context members) = false ∧
            combine context members nullable junction =
              { context, nullable, anyOf := some (mergedMembers context members) }) := by
  unfold combine
  show (mergedMembers context members = [] ∧ _) ∨ _
  generalize hmerged : mergedMembers context members = merged
  rw [mergedMembers] at hmerged
  rw [hmerged]
  -- the cases of the match in the definition
  rcases merged with _ | ⟨first, _ | ⟨second, rest⟩⟩
  · exact .inl ⟨rfl, rfl⟩
  · exact .inr (.inl ⟨first, List.mem_singleton_self first, rfl, rfl⟩)
  · refine .inr (.inr ⟨by simp, ?_⟩)
    cases junction with
    | intersection => exact .inl ⟨rfl, rfl⟩
    | union =>
        cases hdistinguished : areDistinguished (first :: second :: rest) with
        | true => exact .inr (.inl ⟨rfl, rfl, by simp [hdistinguished]⟩)
        | false => exact .inr (.inr ⟨rfl, rfl, by simp [hdistinguished]⟩)

/-- If one member is left, it is returned. -/
theorem combine_of_single {context : Text} {members : List Schema} {member : Schema}
    (h : mergedMembers context members = [member]) (nullable : Bool) (junction : Junction) :
    combine context members nullable junction = { member with nullable := nullable } := by
  rw [mergedMembers] at h
  rw [combine, h]

/-- Null is hoisted to the root, whatever the form. -/
theorem combine_nullable (context : Text) (members : List Schema) (nullable : Bool)
    (junction : Junction) : (combine context members nullable junction).nullable = nullable := by
  rcases combine_cases context members nullable junction with ⟨-, heq⟩ | ⟨member, -, -, heq⟩ |
    ⟨-, ⟨-, heq⟩ | ⟨-, -, heq⟩ | ⟨-, -, heq⟩⟩ <;> rw [heq]

end Schema

end Schemata

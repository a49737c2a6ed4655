import Schemata.Proofs.Combination

/-!
# The first of each class

The loop that drops repetitions compares a member with those that it has kept so far, not with all that
it has seen. Since sameness is transitive, that makes no difference:

* **known** — a member is the same as one that was kept exactly if it is the same as one that was there
  (`Schema.any_same_deduplicate`);
* **firsts** — so what is kept are the members that are the same as none before them, at the places where
  they stand (`Schema.deduplicate_eq_firsts`), and of each class there is exactly one
  (`Schema.countP_same_deduplicate`);
* **parts** — members that differ are all kept (`Schema.deduplicate_of_pairwise`), so repetitions may be
  dropped in each of two parts before they are dropped in the whole (`Schema.deduplicate_append`).
-/

namespace Schemata

namespace Schema

variable {members : List Schema} {member : Schema}

/-- The members that are the same as none that stands before them, in order. -/
def firsts (members : List Schema) : List Schema :=
  (members.zipIdx.filter fun entry => isNew (members.take entry.2) entry.1).map Prod.fst

/-! ## Known -/

/-- **Nothing is known to the members kept that is not known to all members, and conversely.** -/
theorem any_same_deduplicate (members : List Schema) (member : Schema) :
    (deduplicate members).any (same member) = members.any (same member) := by
  rw [Bool.eq_iff_iff, List.any_eq_true, List.any_eq_true]
  constructor
  · rintro ⟨kept, hkept, hsame⟩
    exact ⟨kept, mem_of_mem_deduplicate hkept, hsame⟩
  · rintro ⟨other, hother, hsame⟩
    obtain ⟨kept, hkept, hotherSame⟩ := exists_same_of_mem hother
    exact ⟨kept, hkept, (same_equivalentAt member).trans hsame hotherSame⟩

theorem isNew_deduplicate (members : List Schema) : isNew (deduplicate members) = isNew members := by
  funext member
  rw [isNew, isNew, any_same_deduplicate]

/-! ## Firsts -/

/-- A last member is a first one if it is new to all others, and changes nothing else. -/
theorem firsts_concat (members : List Schema) (member : Schema) :
    firsts (members ++ [member]) =
      if isNew members member then firsts members ++ [member] else firsts members := by
  -- before the places that were there already stands what stood there
  have hbefore : (members.zipIdx.filter fun entry =>
        isNew ((members ++ [member]).take entry.2) entry.1) =
      members.zipIdx.filter fun entry => isNew (members.take entry.2) entry.1 := by
    refine List.filter_congr fun entry hentry => ?_
    have hplace := List.snd_lt_add_of_mem_zipIdx hentry
    rw [List.take_append_of_le_length (by omega)]
  have hlast : (members ++ [member]).take members.length = members := by simp
  unfold firsts
  rw [List.zipIdx_append, List.filter_append, List.map_append, hbefore]
  simp only [List.zipIdx_singleton, Nat.zero_add, List.filter_singleton, hlast]
  cases isNew members member <;> simp

/-- **What is kept are the members that are the same as none before them.** -/
theorem deduplicate_eq_firsts (members : List Schema) : deduplicate members = firsts members := by
  induction members using List.reverseRecOn with
  | nil => rfl
  | append_singleton members member ih =>
      rw [deduplicate_concat, firsts_concat, any_same_deduplicate, ih, isNew]
      cases members.any (same member) <;> rfl

/-- Among members that differ there is one at most that a schema is the same as. -/
theorem countP_same_le_one (h : members.Pairwise fun left right => left.same right = false)
    (schema : Schema) : members.countP (same schema) ≤ 1 := by
  induction members with
  | nil => exact Nat.zero_le 1
  | cons head members ih =>
      obtain ⟨hhead, hrest⟩ := List.pairwise_cons.mp h
      rw [List.countP_cons]
      by_cases hsame : schema.same head = true
      · -- whatever else it is the same as is the same as the head
        have hnone : members.countP (same schema) = 0 := by
          rw [List.countP_eq_zero]
          intro other hother hotherSame
          apply Bool.eq_false_iff.mp (hhead other hother)
          exact (same_equivalentAt head).trans (same_symm hsame) hotherSame
        rw [if_pos hsame]
        omega
      · rw [if_neg hsame]
        exact ih hrest

/-- **Each member is the same as exactly one that is kept.** -/
theorem countP_same_deduplicate (h : member ∈ members) :
    (deduplicate members).countP (same member) = 1 := by
  have hmost := countP_same_le_one (deduplicate_pairwise members) member
  have hleast : 0 < (deduplicate members).countP (same member) := by
    obtain ⟨kept, hkept, hsame⟩ := exists_same_of_mem h
    exact List.countP_pos_iff.mpr ⟨kept, hkept, hsame⟩
  omega

/-! ## Parts -/

/-- Members that differ are all kept. -/
theorem deduplicate_of_pairwise (h : members.Pairwise fun left right => left.same right = false) :
    deduplicate members = members := by
  induction members with
  | nil => rfl
  | cons head members ih =>
      obtain ⟨hhead, hrest⟩ := List.pairwise_cons.mp h
      rw [deduplicate_cons, ih hrest]
      refine congrArg (head :: ·) (List.filter_eq_self.mpr fun other hother => ?_)
      rw [isNew_iff]
      intro _ hmem hsame
      rw [List.mem_singleton.mp hmem] at hsame
      exact Bool.eq_false_iff.mp (hhead other hother) (same_symm hsame)

theorem deduplicate_deduplicate (members : List Schema) :
    deduplicate (deduplicate members) = deduplicate members :=
  deduplicate_of_pairwise (deduplicate_pairwise members)

/-- Of members that follow others those are kept that would be kept anyway and are new to the others. -/
theorem deduplicate_append_eq (members others : List Schema) :
    deduplicate (members ++ others) =
      deduplicate members ++ (deduplicate others).filter (isNew members) := by
  show List.foldl _ _ _ = _
  rw [List.foldl_append, foldl_keep_eq]
  show deduplicate members ++ (deduplicate others).filter (isNew (deduplicate members)) = _
  rw [isNew_deduplicate]

/-- **Repetitions may be dropped in each part first.** -/
theorem deduplicate_append (members others : List Schema) :
    deduplicate (members ++ others) = deduplicate (deduplicate members ++ deduplicate others) := by
  rw [deduplicate_append_eq, deduplicate_append_eq, deduplicate_deduplicate, deduplicate_deduplicate,
    isNew_deduplicate]

/-- **Deduplication keeps the first of each class.** What is kept are the members that are the same as none
before them, in order. No two of them are the same, and each member is the same as exactly one of them.
Dropping repetitions in two lists first makes no difference to what is kept of both. -/
theorem deduplicate_keeps_first_of_each_class (members : List Schema) :
    deduplicate members = firsts members ∧
      (deduplicate members).Pairwise (fun left right => left.same right = false) ∧
      (∀ member ∈ members, (deduplicate members).countP (same member) = 1) ∧
      ∀ others, deduplicate (members ++ others) =
        deduplicate (deduplicate members ++ deduplicate others) :=
  ⟨deduplicate_eq_firsts members, deduplicate_pairwise members, fun _ => countP_same_deduplicate,
    deduplicate_append members⟩

end Schema

end Schemata

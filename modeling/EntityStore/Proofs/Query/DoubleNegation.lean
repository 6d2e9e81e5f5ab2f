import EntityStore.Proofs.Query.Pattern

namespace EntityStore

open QueryDocument (patternSource?)

namespace QueryDocument

/-- The document that joins conditions, with the patterns among them joined apart and last. -/
def joined (plain patterns : List Value) : Value :=
  .single "$and" (.list (plain ++ if patterns.isEmpty then [] else [.single "$and" (.list patterns)]))

/-- Whether two query documents differ in nothing but the order of the conditions that are joined, and of the patterns
that are joined apart from these. -/
inductive Rearranged : Value → Value → Prop
  | same (d : Value) : Rearranged d d
  | joined {plain plain' patterns patterns' : List Value} (hplain : plain.Perm plain')
      (hpatterns : patterns.Perm patterns') (hnone : ∀ v ∈ plain, patternSource? v = none)
      (hsome : ∀ v ∈ patterns, (patternSource? v).isSome = true) :
      Rearranged (QueryDocument.joined plain patterns) (QueryDocument.joined plain' patterns')
  | beside {d d' : Value} (alternative : Value) (h : Rearranged d d') :
      Rearranged (.single "$or" (.list [d, alternative])) (.single "$or" (.list [d', alternative]))

end QueryDocument

theorem ClauseGroup.document_combine_must (qs : List Query) :
    (ClauseGroup.must.combine qs).document =
      QueryDocument.joined ((qs.filter fun q => !q.isPattern).map fun q => q.document)
        ((qs.filter fun q => q.isPattern).map fun q => q.document) := by
  have hjoin (rs : List Query) : (ClauseGroup.must.join rs).document =
      .single "$and" (.list (rs.map fun q => q.document)) := by
    rw [← Query.documents_eq_map]
    rfl
  rw [combine, hjoin, List.map_append, QueryDocument.joined, List.isEmpty_map]
  split
  · rfl
  · rw [List.map_singleton, hjoin]

/-- Joining the same queries in another order rearranges their document. -/
theorem ClauseGroup.rearranged_combine_must {qs rs : List Query} (h : qs.Perm rs)
    (hread : ∀ q ∈ qs, (patternSource? q.document).isSome = q.isPattern) :
    QueryDocument.Rearranged (ClauseGroup.must.combine qs).document (ClauseGroup.must.combine rs).document := by
  rw [document_combine_must, document_combine_must]
  refine .joined ((h.filter _).map _) ((h.filter _).map _) ?_ ?_
  · intro v hv
    obtain ⟨q, hq, rfl⟩ := List.mem_map.mp hv
    obtain ⟨hmem, hplain⟩ := List.mem_filter.mp hq
    rw [← Option.not_isSome_iff_eq_none, hread q hmem]
    simpa using hplain
  · intro v hv
    obtain ⟨q, hq, rfl⟩ := List.mem_map.mp hv
    obtain ⟨hmem, hpattern⟩ := List.mem_filter.mp hq
    rw [hread q hmem, hpattern]

namespace Predicate

theorem opposite_opposite (p : Predicate) : p.opposite.opposite = p := by
  simp only [opposite, Test.opposite_opposite]

theorem isStated_opposite_iff {m : Mapping} {p : Predicate} : p.opposite.IsStated m ↔ p.IsStated m := by
  rw [isStated_iff, isStated_iff, isCopyable_opposite]
  exact Iff.rfl

end Predicate

namespace Clause

/-- The opposites of the predicates, in the same order. -/
def opposites (c : Clause) : Clause := c.map Predicate.opposite

theorem byField_opposites (c : Clause) : c.opposites.byField = c.byField.opposites := by
  have hfields : c.opposites.fields = c.fields := by
    rw [fields, fields, opposites, List.map_map]
    rfl
  have hfield (field : String) : c.opposites.onField field = (c.onField field).opposites := by
    rw [onField, onField, opposites, opposites, List.filter_map]
    rfl
  rw [byField, byField, hfields]
  exact (List.flatMap_congr fun field _ => hfield field).trans List.map_flatMap.symm

theorem arranged_opposites_of_kind {c : Clause} {kind : TestKind} (h : ∀ p ∈ c, p.test.kind = kind) :
    c.opposites.arranged = c.arranged.opposites := by
  have hopposite : ∀ p ∈ c.opposites, p.test.kind = kind.opposite := by
    intro p hp
    obtain ⟨q, hq, rfl⟩ := List.mem_map.mp hp
    rw [Predicate.opposite, Test.kind_opposite, h q hq]
  rw [arranged_of_kind h, arranged_of_kind hopposite, byField_opposites]

end Clause

namespace Filter

/-- The filter that requires predicates, and the one that excludes their opposites, beside the same alternatives. -/
def requiring (c should : Clause) : Filter := ⟨c, [], should⟩

def excludingOpposites (c should : Clause) : Filter := ⟨[], c.opposites, should⟩

variable {m : Mapping} {c should : Clause}

theorem forall_requiring {P : Predicate → Prop} :
    (∀ p ∈ (requiring c should).predicates, P p) ↔ ∀ p ∈ c ++ should, P p := by
  simp [requiring, predicates]

/-- What holds of opposites alike holds of all predicates of one filter if it does of those of the other. -/
theorem forall_excludingOpposites (c should : Clause) {P : Predicate → Prop} (hopposite : ∀ p, P p.opposite ↔ P p) :
    (∀ p ∈ (excludingOpposites c should).predicates, P p) ↔ ∀ p ∈ c ++ should, P p := by
  simp [excludingOpposites, predicates, Clause.opposites, or_imp, forall_and, hopposite]

/-- Opposites that are excluded are the queries of the predicates themselves, arranged by the opposite kinds. -/
theorem excludedQueries_perm (m : Mapping) (c : Clause) :
    (c.opposites.arranged.map fun p => p.opposite.queryIn m).Perm (c.arranged.map fun p => p.queryIn m) := by
  have hopposites : (c.opposites.map fun p => p.opposite.queryIn m) = c.map fun p => p.queryIn m := by
    rw [Clause.opposites, List.map_map]
    exact List.map_congr_left fun p _ => congrArg (Predicate.queryIn m) p.opposite_opposite
  have harranged := (Clause.arranged_perm c.opposites).map fun p => p.opposite.queryIn m
  exact (hopposites ▸ harranged).trans ((Clause.arranged_perm c).map _).symm

theorem queryIn_requiring (hne : c ≠ []) : (requiring c should).queryIn m =
    Query.ofGroups (some (ClauseGroup.must.combine (c.arranged.map fun p => p.queryIn m))) none
      (should.queryIn m .should) := by
  have hc : c.queryIn m .must = some (ClauseGroup.must.combine (c.arranged.map fun p => p.queryIn m)) :=
    if_neg (by simpa using hne)
  rw [queryIn, requiring, hc]
  rfl

theorem queryIn_excludingOpposites (hne : c ≠ []) : (excludingOpposites c should).queryIn m =
    Query.ofGroups (some (ClauseGroup.must.combine (c.opposites.arranged.map fun p => p.opposite.queryIn m))) none
      (should.queryIn m .should) := by
  have hc : c.opposites.queryIn m .mustNot =
      some (ClauseGroup.must.combine (c.opposites.arranged.map fun p => p.opposite.queryIn m)) :=
    if_neg (by simpa [Clause.opposites] using hne)
  rw [queryIn, excludingOpposites, hc]
  cases should.queryIn m .should <;> rfl

theorem rearranged_queryIn (m : Mapping) (c should : Clause) :
    QueryDocument.Rearranged ((requiring c should).queryIn m).document
      ((excludingOpposites c should).queryIn m).document := by
  by_cases hne : c = []
  · obtain rfl := hne
    exact .same _
  · have hread : ∀ q ∈ c.arranged.map fun p => p.queryIn m, (patternSource? q.document).isSome = q.isPattern := by
      intro q hq
      obtain ⟨p, _, rfl⟩ := List.mem_map.mp hq
      exact Test.isSome_patternSource?_query _ _
    have hcombined := ClauseGroup.rearranged_combine_must (excludedQueries_perm m c).symm hread
    rw [queryIn_requiring hne, queryIn_excludingOpposites hne]
    cases should.queryIn m .should with
    | none => exact hcombined
    | some q => exact .beside q.document hcombined

theorem queryIn_eq_of_kind {kind : TestKind} (h : ∀ p ∈ c, p.test.kind = kind) :
    (excludingOpposites c should).queryIn m = (requiring c should).queryIn m := by
  by_cases hne : c = []
  · obtain rfl := hne
    rfl
  · have hqueries : (c.opposites.arranged.map fun p => p.opposite.queryIn m) =
        c.arranged.map fun p => p.queryIn m := by
      rw [Clause.arranged_opposites_of_kind h, Clause.opposites, List.map_map]
      exact List.map_congr_left fun p _ => congrArg (Predicate.queryIn m) p.opposite_opposite
    rw [queryIn_requiring hne, queryIn_excludingOpposites hne, hqueries]

/-- Requiring predicates and excluding their opposites give the same query, apart from the order of the conditions and
of the patterns that are joined; for predicates of one kind the order is the same as well. If there is no query for one
of the two there is none for the other, and both fail for want of a storage name unless a value cannot be copied. -/
theorem outcome_excludingOpposites (m : Mapping) (c should : Clause) :
    (∃ d d', (queryOf (.filter (requiring c should)) m).outcome = .ok d ∧
      (queryOf (.filter (excludingOpposites c should)) m).outcome = .ok d' ∧ QueryDocument.Rearranged d d' ∧
      ∀ kind, (∀ p ∈ c, p.test.kind = kind) → d = d') ∨
    ∃ e e', (queryOf (.filter (requiring c should)) m).outcome = .error e ∧
      (queryOf (.filter (excludingOpposites c should)) m).outcome = .error e' ∧
      ((∀ p ∈ c ++ should, p.isCopyable = true) → e.kind? = some .fieldMapping ∧ e'.kind? = some .fieldMapping) := by
  have hstatedOpposites := forall_excludingOpposites c should (P := Predicate.IsStated m)
    fun _ => Predicate.isStated_opposite_iff
  have hcopyableOpposites := forall_excludingOpposites c should (P := fun p => p.isCopyable = true)
    fun p => by rw [p.isCopyable_opposite]
  by_cases hstated : ∀ p ∈ c ++ should, p.IsStated m
  · have hrequiring := outcome_of_isStated (forall_requiring.mpr hstated)
    have hexcluding := outcome_of_isStated (hstatedOpposites.mpr hstated)
    refine .inl ⟨_, _, hrequiring, hexcluding, rearranged_queryIn m c should, ?_⟩
    intro kind hkind
    rw [queryIn_eq_of_kind hkind]
  · obtain ⟨e, he⟩ := exists_error_of_not_isStated (mt forall_requiring.mp hstated)
    obtain ⟨e', he'⟩ := exists_error_of_not_isStated (mt hstatedOpposites.mp hstated)
    refine .inr ⟨e, e', he, he', fun hcopyable => ⟨?_, ?_⟩⟩
    · exact kind?_of_outcome he (forall_requiring.mpr hcopyable)
    · exact kind?_of_outcome he' (hcopyableOpposites.mpr hcopyable)

/-- Predicates the opposites of which are arranged differently. -/
def mixed : Clause :=
  [⟨"name", .text .start true "K", Value.isOk_spelled_text "K"⟩, ⟨"orders", .comparison .lessOrEqual (.int 9), rfl⟩,
    ⟨"name", .equality false (.text "Ken"), rfl⟩, ⟨"orders", .comparison .greater (.int 2), rfl⟩,
    ⟨"orders", .range false (.int 4) (.int 5), rfl⟩]

theorem outcome_excludingOpposites_mixed :
    ∃ d d', (queryOf (.filter (requiring mixed mixed)) customers).outcome = .ok d ∧
      (queryOf (.filter (excludingOpposites mixed mixed)) customers).outcome = .ok d' ∧
      QueryDocument.Rearranged d d' := by
  have hstated : ∀ p ∈ (requiring mixed mixed).predicates, customers.maps p.field = true ∧ p.isCopyable = true := by
    decide +kernel
  rcases outcome_excludingOpposites customers mixed mixed with
    ⟨d, d', hrequiring, hexcluding, hrearranged, _⟩ | ⟨e, e', he, _, _⟩
  · exact ⟨d, d', hrequiring, hexcluding, hrearranged⟩
  · have hok := outcome_of_isStated fun p hp => Predicate.isStated_iff.mpr (hstated p hp)
    exact (Outcome.ok_ne_error hok he).elim

end Filter

end EntityStore

import EntityStore.Proofs.Query.Predicate

namespace EntityStore

open QueryDocument (conditions areSidesOfRange)

namespace Test

theorem isReadable_query (field : String) (t : Test) : (t.query field).isReadable = true := by
  cases t with
  | equality holds v =>
    cases v with
    | text s =>
      by_cases h : field = Mapping.nativeField <;>
        simp [query, h, Query.isReadable, Condition.isListed]
    | _ => rfl
  | range holds low high => cases holds <;> rfl
  | emptiness holds => cases holds <;> rfl
  | _ => rfl

/-- The query for a test is a condition of its own. -/
theorem conditions_query (field : String) (t : Test) :
    conditions (t.query field).document = [(t.query field).document] := by
  have single (c : Condition) (hc : c.isListed = false) :
      conditions (Query.field field c).document = [(Query.field field c).document] :=
    QueryDocument.conditions_field field c hc
  cases t with
  | equality holds v =>
    cases v with
    | text s =>
      by_cases h : field = Mapping.nativeField
      · rw [query, if_pos h]
        exact single _ rfl
      · rw [query, if_neg h]
        exact single _ rfl
    | _ => exact single _ rfl
  | range holds low high =>
    cases holds with
    | true => exact single _ rfl
    | false =>
      refine QueryDocument.conditions_sidesOfRange _ ?_
      simp [Query.documents, Query.document, Condition.document, Comparison.operator,
        areSidesOfRange]
  | emptiness holds => cases holds <;> exact single _ rfl
  | _ => exact single _ rfl

/-- A query with the operator of a comparison is one for that comparison. -/
theorem kind_of_query_document {field name : String} {t : Test} {c : Comparison} {v : Value}
    (h : (t.query field).document = .single name (.single c.operator v)) : t.kind = .comparison c := by
  cases t with
  | equality holds w =>
    cases w <;> cases holds <;> cases c <;> simp [query, Query.document, Condition.document,
      Comparison.operator] at h
    all_goals split at h <;> simp [Query.document, Condition.document] at h
  | text part holds s =>
    cases holds <;> cases c <;>
      simp [query, Query.document, Condition.document, Comparison.operator] at h
  | comparison d w =>
    cases d <;> cases c <;>
      simp [query, Query.document, Condition.document, Comparison.operator, kind] at h ⊢
  | range holds low high =>
    cases holds <;> cases c <;>
      simp [query, Query.document, Condition.document, Comparison.operator] at h
  | membership holds items =>
    cases holds <;> cases c <;>
      simp [query, Query.document, Condition.document, Comparison.operator] at h
  | emptiness holds =>
    cases holds <;> cases c <;>
      simp [query, Query.document, Condition.document, Comparison.operator] at h

end Test

namespace QueryDocument

theorem eq_sides {docs : List Value} (h : areSidesOfRange docs = true) :
    ∃ field low high, docs = [.single field (.single Comparison.less.operator low),
      .single field (.single Comparison.greater.operator high)] := by
  unfold areSidesOfRange at h
  split at h
  · rename_i below low above high
    exact ⟨below, low, high, by rw [beq_iff_eq.mp h]; rfl⟩
  · exact absurd h (by simp)

/-- What starts with a joined query is no range. -/
theorem areSidesOfRange_joined (name : String) (queries rest : List Value) :
    areSidesOfRange (.single name (.list queries) :: rest) = false := by
  rw [Bool.eq_false_iff]
  intro h
  obtain ⟨field, low, high, heq⟩ := eq_sides h
  simp at heq

/-- What ends with a joined query is no range. -/
theorem areSidesOfRange_concat_joined (docs : List Value) (name : String) (queries : List Value) :
    areSidesOfRange (docs ++ [.single name (.list queries)]) = false := by
  rw [Bool.eq_false_iff]
  intro h
  obtain ⟨field, low, high, heq⟩ := eq_sides h
  have hlast := congrArg List.getLast? heq
  simp at hlast

end QueryDocument

/-- Whether two queries are the sides outside of a range. -/
def Query.AreSides (q r : Query) : Prop :=
  ∃ field low high, q.document = .single field (.single Comparison.less.operator low) ∧
    r.document = .single field (.single Comparison.greater.operator high)

theorem Query.areSides_of_documents {qs : List Query} (h : areSidesOfRange (documents qs) = true) :
    ∃ q r, qs = [q, r] ∧ q.AreSides r := by
  obtain ⟨field, low, high, heq⟩ := QueryDocument.eq_sides h
  rw [documents_eq_map] at heq
  obtain ⟨q, rest, rfl, hq, hrest⟩ := List.map_eq_cons_iff.mp heq
  obtain ⟨r, tail, rfl, hr, htail⟩ := List.map_eq_cons_iff.mp hrest
  obtain rfl := List.map_eq_nil_iff.mp htail
  exact ⟨q, r, rfl, field, low, high, hq, hr⟩

namespace Predicate

theorem isReadable_queryIn (m : Mapping) (p : Predicate) : (p.queryIn m).isReadable = true :=
  Test.isReadable_query _ _

theorem conditions_queryIn (m : Mapping) (p : Predicate) :
    conditions (p.queryIn m).document = [(p.queryIn m).document] :=
  Test.conditions_query _ _

/-- Two conditions that follow each other in the order of their kinds are not the sides of a range: less
comes after greater. -/
theorem not_areSides_of_rank_le (m : Mapping) (p q : Predicate)
    (h : p.test.kind.rank ≤ q.test.kind.rank) : ¬(p.queryIn m).AreSides (q.queryIn m) := by
  rintro ⟨field, low, high, hp, hq⟩
  have hless := Test.kind_of_query_document hp
  have hgreater := Test.kind_of_query_document hq
  rw [Test.kind_converted] at hless hgreater
  rw [hless, hgreater] at h
  exact absurd h (by decide)

end Predicate

namespace Clause

/-- Among the queries of arranged predicates no two are the sides of a range. -/
theorem areSidesOfRange_sublist (m : Mapping) (c : Clause) {qs : List Query}
    (h : qs.Sublist (c.arranged.map fun p => p.queryIn m)) :
    areSidesOfRange (Query.documents qs) = false := by
  rw [Bool.eq_false_iff]
  intro hsides
  obtain ⟨q, r, rfl, hqr⟩ := Query.areSides_of_documents hsides
  -- Setting patterns apart takes queries out, but leaves them in the order of their kinds.
  have hpairs : (c.arranged.map fun p => p.queryIn m).Pairwise fun q r => ¬q.AreSides r := by
    refine List.pairwise_map.mpr ((pairwise_arranged c).imp ?_)
    intro p p' hrank
    exact Predicate.not_areSides_of_rank_le m p p' hrank
  exact (List.pairwise_cons.mp (hpairs.sublist h)).1 r (by simp) hqr

end Clause

namespace ClauseGroup

theorem query_asked (m : Mapping) (group : ClauseGroup) (p : Predicate)
    (h : m.maps p.field = true) :
    (group.asked p).query m =
      if p.test.refusesPreparation then .error Value.viewRefusal
      else .ok ((group.asked p).queryIn m) := by
  have hfield : (group.asked p).field = p.field := by cases group <;> rfl
  have hrefuses : (group.asked p).test.refusesPreparation = p.test.refusesPreparation := by
    cases group with
    | mustNot => exact Test.refusesPreparation_opposite p.test
    | _ => rfl
  rw [Predicate.query_eq m _ (by rw [hfield]; exact h), hrefuses]

theorem holds_join (group : ClauseGroup) (fulfils : String → Condition → Bool) (qs : List Query) :
    (group.join qs).holds fulfils =
      if group = .should then qs.any fun q => q.holds fulfils
      else qs.all fun q => q.holds fulfils := by
  cases group <;> simp [join, Query.holds, Query.allHold_eq_all, Query.anyHolds_eq_any]

/-- Setting patterns apart does not change what a group asks for. -/
theorem holds_combine (group : ClauseGroup) (fulfils : String → Condition → Bool) (qs : List Query) :
    (group.combine qs).holds fulfils =
      if group = .should then qs.any fun q => q.holds fulfils
      else qs.all fun q => q.holds fulfils := by
  have hparts := List.filter_append_perm (fun q : Query => !q.isPattern) qs
  simp only [Bool.not_not] at hparts
  have hgroup : (group.combine qs).holds fulfils = (group.join
      (qs.filter (fun q => !q.isPattern) ++ qs.filter fun q => q.isPattern)).holds fulfils := by
    unfold combine
    cases hp : qs.filter fun q => q.isPattern with
    | nil => simp
    | cons q rest =>
      cases group <;> simp [holds_join]
  rw [hgroup, holds_join]
  by_cases h : group = .should
  · rw [if_pos h, if_pos h]
    exact hparts.any_eq
  · rw [if_neg h, if_neg h]
    exact hparts.all_eq

theorem isReadable_join (group : ClauseGroup) (qs : List Query)
    (h : ∀ q ∈ qs, q.isReadable = true) : (group.join qs).isReadable = true := by
  have hall : Query.areReadable qs = true := by
    rw [Query.areReadable_eq_all]
    exact List.all_eq_true.mpr h
  cases group <;> exact hall

theorem isReadable_combine (group : ClauseGroup) (qs : List Query)
    (h : ∀ q ∈ qs, q.isReadable = true) : (group.combine qs).isReadable = true := by
  apply isReadable_join
  intro q hq
  rcases List.mem_append.mp hq with hq | hq
  · exact h q (List.mem_filter.mp hq).1
  · split at hq
    · simp at hq
    · rw [List.mem_singleton.mp hq]
      apply isReadable_join
      intro r hr
      exact h r (List.mem_filter.mp hr).1

theorem conditions_join (group : ClauseGroup) (qs : List Query)
    (h : group = .should → areSidesOfRange (Query.documents qs) = false) :
    conditions (group.join qs).document = qs.flatMap fun q => conditions q.document := by
  have hall : (Query.documents qs).flatMap conditions = qs.flatMap fun q => conditions q.document := by
    rw [Query.documents_eq_map, List.flatMap_map]
  cases group with
  | should => exact (QueryDocument.conditions_any _ (h rfl)).trans hall
  | _ => exact (QueryDocument.conditions_all _).trans hall

theorem document_join (group : ClauseGroup) (qs : List Query) :
    ∃ name, (group.join qs).document = .single name (.list (Query.documents qs)) := by
  cases group <;> exact ⟨_, rfl⟩

/-- Setting patterns apart neither loses nor doubles a condition. -/
theorem conditions_combine (group : ClauseGroup) (qs : List Query)
    (hone : ∀ q ∈ qs, conditions q.document = [q.document])
    (hsides : ∀ rs : List Query, rs.Sublist qs → group = .should →
      areSidesOfRange (Query.documents rs) = false) :
    (conditions (group.combine qs).document).Perm (qs.map fun q => q.document) := by
  let others := qs.filter fun q => !q.isPattern
  let patterns := qs.filter fun q => q.isPattern
  have hparts : (others ++ patterns).Perm qs := by
    simpa [others, patterns] using List.filter_append_perm (fun q : Query => !q.isPattern) qs
  have flat (rs : List Query) (hrs : rs.Sublist qs) :
      (rs.flatMap fun q => conditions q.document) = rs.map fun q => q.document := by
    rw [← List.flatMap_singleton' (rs.map fun q => q.document), List.flatMap_map]
    exact List.flatMap_congr fun q hq => hone q (hrs.subset hq)
  have hothers : others.Sublist qs := List.filter_sublist
  have hpatterns : patterns.Sublist qs := List.filter_sublist
  suffices h : conditions (group.combine qs).document = (others ++ patterns).map fun q => q.document by
    rw [h]
    exact hparts.map _
  cases hp : patterns with
  | nil =>
    have hcombine : group.combine qs = group.join others := by simp [combine, others, patterns, hp]
    rw [hcombine, conditions_join group others (hsides others hothers), flat others hothers,
      List.append_nil]
  | cons q rest =>
    have hcombine : group.combine qs = group.join (others ++ [group.join patterns]) := by
      simp [combine, others, patterns, hp]
    -- Joined patterns stand last, and a joined query is no side of a range.
    have hlast : group = .should →
        areSidesOfRange (Query.documents (others ++ [group.join patterns])) = false := by
      intro _
      obtain ⟨name, hname⟩ := document_join group patterns
      rw [Query.documents_eq_map, List.map_append, List.map_singleton, hname]
      exact QueryDocument.areSidesOfRange_concat_joined _ _ _
    rw [hcombine, conditions_join group _ hlast, List.flatMap_append, flat others hothers,
      List.flatMap_singleton, conditions_join group patterns (hsides patterns hpatterns),
      flat patterns hpatterns, List.map_append, ← hp]

end ClauseGroup

namespace Clause

/-- The query of a group of predicates over a mapping of their fields. -/
def queryIn (m : Mapping) (group : ClauseGroup) (c : Clause) : Option Query :=
  if c.isEmpty then none else some (group.combine (c.arranged.map fun p => (group.asked p).queryIn m))

/-- Whether some value of a group refuses to be copied when it is prepared. -/
def refusesPreparation (c : Clause) : Bool := c.any fun p => p.test.refusesPreparation

/-- A group of mapped fields has a query, unless a value cannot be prepared. -/
theorem query_eq (m : Mapping) (group : ClauseGroup) (c : Clause)
    (hmaps : ∀ p ∈ c, m.maps p.field = true) :
    c.query m group =
      if c.refusesPreparation then .error Value.viewRefusal else .ok (c.queryIn m group) := by
  have asked (p : Predicate) (hp : p ∈ c.arranged) :=
    ClauseGroup.query_asked m group p (hmaps p ((arranged_perm c).mem_iff.mp hp))
  cases hrefuses : c.refusesPreparation with
  | false =>
    have hno : ∀ p ∈ c, p.test.refusesPreparation = false := by
      simpa [refusesPreparation] using hrefuses
    have hqueries : (c.arranged.mapM fun p => (group.asked p).query m) =
        .ok (c.arranged.map fun p => (group.asked p).queryIn m) := by
      apply Outcome.mapM_ok
      intro p hp
      rw [asked p hp, hno p ((arranged_perm c).mem_iff.mp hp)]
      rfl
    cases hc : c.isEmpty <;> simp [query, queryIn, hc, hqueries]
  | true =>
    obtain ⟨p, hp, hpr⟩ : ∃ p ∈ c, p.test.refusesPreparation = true := by
      simpa [refusesPreparation] using hrefuses
    have hqueries : (c.arranged.mapM fun p => (group.asked p).query m) =
        .error Value.viewRefusal := by
      apply Outcome.mapM_error
      · intro q hq
        rw [asked q hq]
        cases q.test.refusesPreparation <;> simp
      · have hp := (arranged_perm c).mem_iff.mpr hp
        refine ⟨p, hp, ?_⟩
        rw [asked p hp, hpr]
        rfl
    have hc : c.isEmpty = false := List.isEmpty_eq_false_iff.mpr (List.ne_nil_of_mem hp)
    simp [query, hc, hqueries]

theorem eq_combine {m : Mapping} {group : ClauseGroup} {c : Clause} {q : Query}
    (h : c.queryIn m group = some q) :
    q = group.combine (c.arranged.map fun p => (group.asked p).queryIn m) := by
  unfold queryIn at h
  split at h <;> simp_all

theorem isSome_queryIn (m : Mapping) (group : ClauseGroup) (c : Clause) :
    (c.queryIn m group).isSome = !c.isEmpty := by
  unfold queryIn
  cases c.isEmpty <;> rfl

theorem eq_nil_of_queryIn {m : Mapping} {group : ClauseGroup} {c : Clause}
    (h : c.queryIn m group = none) : c = [] := by
  have hc := isSome_queryIn m group c
  rw [h] at hc
  simpa using hc

/-- The document of the query of a group joins other documents. -/
theorem document_queryIn {m : Mapping} {group : ClauseGroup} {c : Clause} {q : Query}
    (h : c.queryIn m group = some q) : ∃ name items, q.document = .single name (.list items) := by
  rw [eq_combine h]
  obtain ⟨name, hname⟩ := ClauseGroup.document_join group _
  exact ⟨name, _, hname⟩

theorem holds_queryIn (m : Mapping) (group : ClauseGroup) (c : Clause)
    (fulfils : String → Condition → Bool) {q : Query} (h : c.queryIn m group = some q) :
    q.holds fulfils =
      if group = .should then c.any fun p => ((group.asked p).queryIn m).holds fulfils
      else c.all fun p => ((group.asked p).queryIn m).holds fulfils := by
  rw [eq_combine h, ClauseGroup.holds_combine, List.any_map, List.all_map]
  rw [(arranged_perm c).any_eq, (arranged_perm c).all_eq]
  rfl

theorem isReadable_queryIn (m : Mapping) (group : ClauseGroup) (c : Clause) {q : Query}
    (h : c.queryIn m group = some q) : q.isReadable = true := by
  rw [eq_combine h]
  apply ClauseGroup.isReadable_combine
  intro r hr
  obtain ⟨p, _, rfl⟩ := List.mem_map.mp hr
  exact Predicate.isReadable_queryIn m _

/-- The query of a group is made of one condition for each of its predicates. -/
theorem conditions_queryIn (m : Mapping) (group : ClauseGroup) (c : Clause) {q : Query}
    (h : c.queryIn m group = some q) :
    (conditions q.document).Perm (c.map fun p => ((group.asked p).queryIn m).document) := by
  have hperm := ClauseGroup.conditions_combine group
    (c.arranged.map fun p => (group.asked p).queryIn m)
    (by
      intro r hr
      obtain ⟨p, _, rfl⟩ := List.mem_map.mp hr
      exact Predicate.conditions_queryIn m _)
    (by
      rintro rs hrs rfl
      exact areSidesOfRange_sublist m c hrs)
  rw [← eq_combine h, List.map_map] at hperm
  exact hperm.trans ((arranged_perm c).map _)

end Clause

end EntityStore

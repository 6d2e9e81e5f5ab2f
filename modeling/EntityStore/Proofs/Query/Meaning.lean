import EntityStore.Proofs.Query.Group
import EntityStore.Proofs.Query.Spelling

namespace EntityStore

open QueryDocument (conditions areSidesOfRange)

namespace Query

/-- The conditions of a query, none if there is no query. -/
def conditionsOf (q : Option Query) : List Value := q.elim [] fun q => conditions q.document

theorem holds_ofGroups (fulfils : String → Condition → Bool) (must mustNot should : Option Query) :
    (ofGroups must mustNot should).holds fulfils =
      (!must.isSome && !mustNot.isSome && !should.isSome ||
        ((must.isSome || mustNot.isSome) && must.all (fun q => q.holds fulfils) &&
          mustNot.all fun q => q.holds fulfils) ||
        should.any fun q => q.holds fulfils) := by
  cases must <;> cases mustNot <;> cases should <;>
    simp [ofGroups, conjoined, holds, allHold, anyHolds]

theorem isReadable_ofGroups (must mustNot should : Option Query)
    (h : ∀ q, must = some q ∨ mustNot = some q ∨ should = some q → q.isReadable = true) :
    (ofGroups must mustNot should).isReadable = true := by
  cases must <;> cases mustNot <;> cases should <;>
    simp_all [ofGroups, conjoined, isReadable, areReadable]

/-- Joining the queries of the groups keeps their conditions, in order. -/
theorem conditions_ofGroups (must mustNot should : Option Query)
    (h : ∀ q, must = some q ∨ mustNot = some q →
      ∃ name items, q.document = .single name (.list items)) :
    conditions (ofGroups must mustNot should).document =
      conditionsOf must ++ conditionsOf mustNot ++ conditionsOf should := by
  have conjunction : conditions (conjoined must mustNot).document =
      conditionsOf must ++ conditionsOf mustNot := by
    cases must <;> cases mustNot <;>
      simp [conjoined, conditionsOf, document, documents, conditions,
        QueryDocument.conditionsOfEntries]
  have joined : must.isNone = false ∨ mustNot.isNone = false →
      ∃ name items, (conjoined must mustNot).document = .single name (.list items) := by
    intro hsome
    cases must with
    | none =>
      cases mustNot with
      | none => simp at hsome
      | some q => exact h q (.inr rfl)
    | some q =>
      cases mustNot with
      | none => exact h q (.inl rfl)
      | some r => exact ⟨_, _, rfl⟩
  cases should with
  | none => simpa [ofGroups, conditionsOf] using conjunction
  | some q =>
    by_cases hnone : must.isNone && mustNot.isNone
    · obtain ⟨rfl, rfl⟩ : must = none ∧ mustNot = none := by simpa using hnone
      simp [ofGroups, conditionsOf]
    -- The conjunction comes first and is joined itself, so the two are not read as a range.
    · obtain ⟨name, items, hname⟩ := joined (by
        cases must <;> cases mustNot <;> simp_all)
      have hsides : areSidesOfRange [(conjoined must mustNot).document, q.document] = false := by
        rw [hname]
        exact QueryDocument.areSidesOfRange_joined name items _
      have hany := QueryDocument.conditions_any _ hsides
      rw [ofGroups, if_neg hnone, document]
      change conditions (.single "$or" (.list [(conjoined must mustNot).document, q.document])) = _
      rw [hany]
      simp [conjunction, conditionsOf]

end Query

namespace Predicate

/-- The filter that asks for a predicate and nothing else. -/
def alone (p : Predicate) : Filter := ⟨[p], [], []⟩

/-- Whether the query for a predicate alone is true. -/
def HoldsAlone (m : Mapping) (fulfils : String → Value → Bool) (p : Predicate) : Prop :=
  ∃ d, (queryOf (.filter p.alone) m).outcome = .ok d ∧ QueryDocument.holds fulfils d = true

/-- Whether the query for a predicate alone is made of one condition. -/
def HasCondition (m : Mapping) (p : Predicate) (condition : Value) : Prop :=
  ∃ d, (queryOf (.filter p.alone) m).outcome = .ok d ∧ conditions d = [condition]

end Predicate

namespace Filter

/-- All the predicates of a filter. -/
def predicates (f : Filter) : Clause := f.must ++ f.mustNot ++ f.should

/-- The predicates that a query has to ask for: what must not hold is asked for as its opposite. -/
def asked (f : Filter) : Clause := f.must ++ f.mustNot.map Predicate.opposite ++ f.should

/-- Whether some value of a filter refuses to be copied when it is prepared. A data record is copied
with its keys then, which the copy of the whole filter passes over in ordered documents. -/
def refusesPreparation (f : Filter) : Bool :=
  f.must.refusesPreparation || f.mustNot.refusesPreparation || f.should.refusesPreparation

/-- What a filter asks for: all that must hold and the opposite of all that must not, or any of the
alternatives. An empty filter asks for nothing. -/
def Holds (m : Mapping) (fulfils : String → Value → Bool) (f : Filter) : Prop :=
  f.isEmpty = true ∨
    ((f.must ≠ [] ∨ f.mustNot ≠ []) ∧ (∀ p ∈ f.must, p.HoldsAlone m fulfils) ∧
      ∀ p ∈ f.mustNot, p.opposite.HoldsAlone m fulfils) ∨
    ∃ p ∈ f.should, p.HoldsAlone m fulfils

/-- The query for a filter over a mapping of its fields. -/
def queryIn (m : Mapping) (f : Filter) : Query :=
  Query.ofGroups (f.must.queryIn m .must) (f.mustNot.queryIn m .mustNot) (f.should.queryIn m .should)

theorem query_eq (m : Mapping) (f : Filter) (hmaps : ∀ p ∈ f.predicates, m.maps p.field = true)
    (hcopy : f.isCopyable = true) :
    f.query m = if f.refusesPreparation then .error Value.viewRefusal else .ok (f.queryIn m) := by
  have must := Clause.query_eq m .must f.must fun p hp => hmaps p (by simp [predicates, hp])
  have mustNot := Clause.query_eq m .mustNot f.mustNot fun p hp => hmaps p (by simp [predicates, hp])
  have should := Clause.query_eq m .should f.should fun p hp => hmaps p (by simp [predicates, hp])
  unfold query refusesPreparation queryIn
  rw [must, mustNot, should, hcopy]
  cases f.must.refusesPreparation <;> cases f.mustNot.refusesPreparation <;>
    cases f.should.refusesPreparation <;> rfl

theorem isEmpty_iff (f : Filter) :
    f.isEmpty = true ↔ f.must = [] ∧ f.mustNot = [] ∧ f.should = [] := by
  simp [isEmpty, and_assoc]

theorem isReadable_queryIn (m : Mapping) (f : Filter) : (f.queryIn m).isReadable = true := by
  apply Query.isReadable_ofGroups
  rintro q (h | h | h) <;> exact Clause.isReadable_queryIn m _ _ h

/-- The query for a filter is true when what its predicates ask for is. -/
theorem holds_queryIn (m : Mapping) (f : Filter) (fulfils : String → Condition → Bool) :
    (f.queryIn m).holds fulfils = true ↔
      f.isEmpty = true ∨
        ((f.must ≠ [] ∨ f.mustNot ≠ []) ∧ (∀ p ∈ f.must, (p.queryIn m).holds fulfils = true) ∧
          ∀ p ∈ f.mustNot, (p.opposite.queryIn m).holds fulfils = true) ∨
        ∃ p ∈ f.should, (p.queryIn m).holds fulfils = true := by
  have must : (f.must.queryIn m .must).all (fun q => q.holds fulfils) =
      f.must.all fun p => (p.queryIn m).holds fulfils := by
    cases h : f.must.queryIn m .must with
    | none => simp [Clause.eq_nil_of_queryIn h]
    | some q => simp [Clause.holds_queryIn m .must f.must fulfils h, ClauseGroup.asked]
  have mustNot : (f.mustNot.queryIn m .mustNot).all (fun q => q.holds fulfils) =
      f.mustNot.all fun p => (p.opposite.queryIn m).holds fulfils := by
    cases h : f.mustNot.queryIn m .mustNot with
    | none => simp [Clause.eq_nil_of_queryIn h]
    | some q => simp [Clause.holds_queryIn m .mustNot f.mustNot fulfils h, ClauseGroup.asked]
  have should : (f.should.queryIn m .should).any (fun q => q.holds fulfils) =
      f.should.any fun p => (p.queryIn m).holds fulfils := by
    cases h : f.should.queryIn m .should with
    | none => simp [Clause.eq_nil_of_queryIn h]
    | some q => simp [Clause.holds_queryIn m .should f.should fulfils h, ClauseGroup.asked]
  rw [queryIn, Query.holds_ofGroups, must, mustNot, should]
  simp [Clause.isSome_queryIn, isEmpty_iff, and_assoc, or_assoc]

/-- The query for a filter is made of one condition for each predicate. -/
theorem conditions_queryIn (m : Mapping) (f : Filter) :
    (conditions (f.queryIn m).document).Perm (f.asked.map fun p => (p.queryIn m).document) := by
  have clause (group : ClauseGroup) (c : Clause) : (Query.conditionsOf (c.queryIn m group)).Perm
      (c.map fun p => ((group.asked p).queryIn m).document) := by
    cases h : c.queryIn m group with
    | none => simp [Clause.eq_nil_of_queryIn h, Query.conditionsOf]
    | some q => exact Clause.conditions_queryIn m group c h
  rw [queryIn, Query.conditions_ofGroups _ _ _ (by
    rintro q (h | h) <;> exact Clause.document_queryIn h)]
  rw [asked, List.map_append, List.map_append, List.map_map]
  exact ((clause .must f.must).append (clause .mustNot f.mustNot)).append (clause .should f.should)

/-- The interpretation of conditions that is meant by one of their documents. -/
theorem holds_document (m : Mapping) (f : Filter) (fulfils : String → Value → Bool) :
    QueryDocument.holds fulfils (f.queryIn m).document =
      (f.queryIn m).holds fun name c => fulfils name c.document :=
  QueryDocument.holds_document fulfils _ (isReadable_queryIn m f)

/-- Mapped fields and copied values are all that a query needs, if the values can be prepared. -/
theorem outcome_eq (m : Mapping) (f : Filter) (hmaps : ∀ p ∈ f.predicates, m.maps p.field = true)
    (hcopy : f.isCopyable = true) :
    (queryOf (.filter f) m).outcome =
      if f.refusesPreparation then .error Value.viewRefusal else .ok (f.queryIn m).document := by
  rw [outcome_queryOf, query_eq m f hmaps hcopy]
  cases f.refusesPreparation <;> rfl

end Filter

namespace Predicate

/-- A predicate over a mapped field with a value that can be copied and prepared. -/
structure IsStated (m : Mapping) (p : Predicate) : Prop where
  maps : m.maps p.field = true
  isCopyable : p.test.operand.holdsView = false
  isPrepared : p.test.refusesPreparation = false

theorem IsStated.opposite {m : Mapping} {p : Predicate} (h : p.IsStated m) :
    p.opposite.IsStated m where
  maps := h.maps
  isCopyable := by rw [Predicate.opposite, Test.operand_opposite]; exact h.isCopyable
  isPrepared := by rw [Predicate.opposite, Test.refusesPreparation_opposite]; exact h.isPrepared

theorem outcome_alone {m : Mapping} {p : Predicate} (h : p.IsStated m) :
    (queryOf (.filter p.alone) m).outcome = .ok (p.alone.queryIn m).document := by
  have hmaps : ∀ q ∈ p.alone.predicates, m.maps q.field = true := by
    intro q hq
    obtain rfl : q = p := by simpa [alone, Filter.predicates] using hq
    exact h.maps
  have hcopy : p.alone.isCopyable = true := by
    simp [alone, Filter.isCopyable, Clause.isCopyable, h.isCopyable]
  have hprep : p.alone.refusesPreparation = false := by
    simp [alone, Filter.refusesPreparation, Clause.refusesPreparation, h.isPrepared]
  rw [Filter.outcome_eq m _ hmaps hcopy, hprep]
  rfl

theorem query_eq_ok_iff (m : Mapping) (p : Predicate) :
    (∃ q, p.query m = .ok q) ↔ m.maps p.field = true ∧ p.test.refusesPreparation = false := by
  unfold query
  rw [MappingArgument.storageField, Mapping.storageField_text, Test.prepared_eq]
  cases m.maps p.field <;> cases p.test.refusesPreparation <;> simp

theorem holdsAlone_iff {m : Mapping} {p : Predicate} (h : p.IsStated m)
    (fulfils : String → Value → Bool) :
    p.HoldsAlone m fulfils ↔
      ((p.queryIn m).holds fun name c => fulfils name c.document) = true := by
  have hfilter := Filter.holds_queryIn m p.alone fun name c => fulfils name c.document
  rw [← Filter.holds_document] at hfilter
  unfold HoldsAlone
  rw [outcome_alone h]
  simpa [alone, Filter.isEmpty] using hfilter

theorem hasCondition {m : Mapping} {p : Predicate} (h : p.IsStated m) :
    p.HasCondition m (p.queryIn m).document := by
  refine ⟨_, outcome_alone h, ?_⟩
  have hperm := Filter.conditions_queryIn m p.alone
  simpa [alone, Filter.asked] using hperm

end Predicate

namespace Filter

theorem isStated_of_mem {m : Mapping} {f : Filter} {p : Predicate} (hp : p ∈ f.predicates)
    (hmaps : ∀ p ∈ f.predicates, m.maps p.field = true) (hcopy : f.isCopyable = true)
    (hprep : f.refusesPreparation = false) : p.IsStated m where
  maps := hmaps p hp
  isCopyable := by
    simp only [isCopyable, Clause.isCopyable, Bool.and_eq_true, List.all_eq_true,
      Bool.not_eq_true'] at hcopy
    simp only [predicates, List.mem_append] at hp
    rcases hp with (hp | hp) | hp
    · exact hcopy.1.1 p hp
    · exact hcopy.1.2 p hp
    · exact hcopy.2 p hp
  isPrepared := by
    simp only [refusesPreparation, Clause.refusesPreparation, Bool.or_eq_false_iff,
      List.any_eq_false, Bool.not_eq_true] at hprep
    simp only [predicates, List.mem_append] at hp
    rcases hp with (hp | hp) | hp
    · exact hprep.1.1 p hp
    · exact hprep.1.2 p hp
    · exact hprep.2 p hp

/-- A filter has a query only if all its predicates can be stated. -/
theorem isStated_of_outcome {m : Mapping} {f : Filter} {d : Value}
    (h : (queryOf (.filter f) m).outcome = .ok d) : ∀ p ∈ f.predicates, p.IsStated m := by
  have hcopy : f.isCopyable = true := by
    by_contra hno
    rw [outcome_queryOf, query, if_pos (by simpa using hno)] at h
    simp [Except.map] at h
  have clause (group : ClauseGroup) (c : Clause) {q : Option Query} (hq : c.query m group = .ok q) :
      ∀ p ∈ c, m.maps p.field = true ∧ p.test.refusesPreparation = false := by
    intro p hp
    have hc : c.isEmpty = false := List.isEmpty_eq_false_iff.mpr (List.ne_nil_of_mem hp)
    rw [Clause.query, hc] at hq
    obtain ⟨qs, hqs, _⟩ := Outcome.bind_eq_ok.mp hq
    obtain ⟨r, hr⟩ := Outcome.mapM_ok_mem hqs p ((Clause.arranged_perm c).mem_iff.mpr hp)
    have hstated := (Predicate.query_eq_ok_iff m (group.asked p)).mp ⟨r, hr⟩
    cases group with
    | mustNot => exact ⟨hstated.1, Test.refusesPreparation_opposite p.test ▸ hstated.2⟩
    | _ => exact hstated
  obtain ⟨must, mustNot, should, hm, hn, hs⟩ : ∃ must mustNot should, f.must.query m .must = .ok must ∧
      f.mustNot.query m .mustNot = .ok mustNot ∧ f.should.query m .should = .ok should := by
    rw [outcome_queryOf, query, hcopy] at h
    cases hm : f.must.query m .must <;> cases hn : f.mustNot.query m .mustNot <;>
      cases hs : f.should.query m .should <;> simp_all [Except.map]
  simp only [isCopyable, Clause.isCopyable, Bool.and_eq_true, List.all_eq_true,
    Bool.not_eq_true'] at hcopy
  intro p hp
  simp only [predicates, List.mem_append] at hp
  rcases hp with (hp | hp) | hp
  · exact ⟨(clause _ _ hm p hp).1, hcopy.1.1 p hp, (clause _ _ hm p hp).2⟩
  · exact ⟨(clause _ _ hn p hp).1, hcopy.1.2 p hp, (clause _ _ hn p hp).2⟩
  · exact ⟨(clause _ _ hs p hp).1, hcopy.2 p hp, (clause _ _ hs p hp).2⟩

/-- The query for a filter is true exactly when what the filter asks for is, whatever the conditions of
its predicates are taken to mean, and it is made of one condition for each predicate. There is none only
if a value refuses to be copied once more. -/
theorem queryOf_holds_iff (m : Mapping) (f : Filter)
    (hmaps : ∀ p ∈ f.predicates, m.maps p.field = true) (hcopy : f.isCopyable = true) :
    f.refusesPreparation = true ∧ (queryOf (.filter f) m).outcome = .error Value.viewRefusal ∨
      f.refusesPreparation = false ∧ ∃ d, (queryOf (.filter f) m).outcome = .ok d ∧
        (∀ fulfils, QueryDocument.holds fulfils d = true ↔ f.Holds m fulfils) ∧
        ∃ condition : Predicate → Value, (∀ p ∈ f.asked, p.HasCondition m (condition p)) ∧
          (conditions d).Perm (f.asked.map condition) := by
  have houtcome := outcome_eq m f hmaps hcopy
  cases hprep : f.refusesPreparation with
  | true => exact .inl ⟨rfl, by rw [houtcome, hprep]; rfl⟩
  | false =>
    have stated (p : Predicate) (hp : p ∈ f.predicates) : p.IsStated m :=
      isStated_of_mem hp hmaps hcopy hprep
    have must (p : Predicate) (hp : p ∈ f.must) := stated p (by simp [predicates, hp])
    have mustNot (p : Predicate) (hp : p ∈ f.mustNot) := stated p (by simp [predicates, hp])
    have should (p : Predicate) (hp : p ∈ f.should) := stated p (by simp [predicates, hp])
    refine .inr ⟨rfl, (f.queryIn m).document, by rw [houtcome, hprep]; rfl, ?_, ?_⟩
    · intro fulfils
      rw [holds_document, holds_queryIn, Holds]
      refine or_congr_right (or_congr (and_congr_right fun _ => and_congr ?_ ?_) ?_)
      · exact forall₂_congr fun p hp => (Predicate.holdsAlone_iff (must p hp) fulfils).symm
      · exact forall₂_congr fun p hp =>
          (Predicate.holdsAlone_iff (mustNot p hp).opposite fulfils).symm
      · refine exists_congr fun p => and_congr_right fun hp => ?_
        exact (Predicate.holdsAlone_iff (should p hp) fulfils).symm
    · refine ⟨fun p => (p.queryIn m).document, ?_, conditions_queryIn m f⟩
      intro p hp
      simp only [asked, List.mem_append, List.mem_map] at hp
      rcases hp with (hp | ⟨q, hq, rfl⟩) | hp
      · exact Predicate.hasCondition (must p hp)
      · exact Predicate.hasCondition (mustNot q hq).opposite
      · exact Predicate.hasCondition (should p hp)

/-- Customers, three fields of whom are named differently where they are stored. -/
def customers : Mapping :=
  ⟨"clients", [("id", "_id"), ("name", "customer_name"), ("orders", "total_orders"), ("tags", "tags")],
    "id", false⟩

/-- Predicates of many kinds in all groups, one of them outside of a range that holds nothing. -/
def frequentCustomers : Filter where
  must := [⟨"name", .text .start true "K", rfl⟩, ⟨"orders", .range false (.int 5) (.int 2), rfl⟩,
    ⟨"name", .text .start true "K", rfl⟩]
  mustNot := [⟨"name", .equality true (.text "Ken"), rfl⟩, ⟨"orders", .comparison .less (.int 2), rfl⟩]
  should := [⟨"orders", .comparison .less (.int 0), rfl⟩, ⟨"orders", .comparison .greater (.int 90), rfl⟩,
    ⟨"_id", .membership true [.text "000000000000000000000001"], rfl⟩]

theorem queryOf_holds_iff_frequentCustomers :
    (∀ p ∈ frequentCustomers.predicates, customers.maps p.field = true) ∧
      frequentCustomers.isCopyable = true ∧
      ∃ d, (queryOf (.filter frequentCustomers) customers).outcome = .ok d ∧
        (∀ fulfils, QueryDocument.holds fulfils d = true ↔
          frequentCustomers.Holds customers fulfils) ∧
        ∃ condition : Predicate → Value,
          (∀ p ∈ frequentCustomers.asked, p.HasCondition customers (condition p)) ∧
          (conditions d).Perm (frequentCustomers.asked.map condition) := by
  have hmaps : ∀ p ∈ frequentCustomers.predicates, customers.maps p.field = true := by
    decide +kernel
  have hcopy : frequentCustomers.isCopyable = true := by decide +kernel
  rcases queryOf_holds_iff customers frequentCustomers hmaps hcopy with ⟨hrefuses, _⟩ | ⟨_, hd⟩
  · exact absurd hrefuses (by decide +kernel)
  · exact ⟨hmaps, hcopy, hd⟩

end Filter

end EntityStore

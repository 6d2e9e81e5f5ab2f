import EntityStore.Proofs.Query.Meaning
import EntityStore.Proofs.Query.Operators
import EntityStore.Proofs.Value.Atom
import EntityStore.Repository.Writing

namespace EntityStore.Repository

variable {α : Type} {r : Repository α} {plans : List PlannedWrite}

/-- Whether the identities among planned writes can be told of, as they are when what was written is looked for. -/
abbrev AreTold (plans : List PlannedWrite) : Prop := ∀ v ∈ plans.filterMap (·.knownId?), v.spelled.isOk = true

theorem isOk_spelled_ids {ids : List Value} (h : ∀ v ∈ ids, v.spelled.isOk = true) :
    (Value.list ids).spelled.isOk = true := by
  rw [Value.isOk_spelled_list, List.all_eq_true]
  exact h

def among (field : String) (ids : List Value) (h : ∀ v ∈ ids, v.spelled.isOk = true) : Clause :=
  if ids.isEmpty then [] else [⟨field, .membership true ids, isOk_spelled_ids h⟩]

theorem eq_objectId_of_freshId {v : Value} (hv : v ∈ plans.filterMap (·.freshId?)) :
    ∃ o, v = .objectId o := by
  obtain ⟨plan, _, hplan⟩ := List.mem_filterMap.mp hv
  cases plan with
  | insert o _ => exact ⟨o, (Option.some.inj hplan).symm⟩
  | upsert _ _ _ _ => simp [PlannedWrite.freshId?] at hplan

/-- Identifiers can be told of. -/
theorem isOk_spelled_freshIds (plans : List PlannedWrite) :
    ∀ v ∈ plans.filterMap (·.freshId?), v.spelled.isOk = true := by
  intro v hv
  obtain ⟨o, rfl⟩ := eq_objectId_of_freshId hv
  exact Value.isOk_spelled_objectId o

def writtenClause (identity : String) (h : AreTold plans) : Clause :=
  among Mapping.nativeField (plans.filterMap (·.freshId?)) (isOk_spelled_freshIds plans) ++
    among identity (plans.filterMap (·.knownId?)) h

theorem orAmong_outcome {field : String} {ids : List Value} (f : Filter) (hids : ids = [] ∨ field ≠ "")
    (h : ∀ v ∈ ids, v.spelled.isOk = true) :
    (orAmong field ids f).outcome = .ok { f with should := f.should ++ among field ids h } := by
  by_cases hnone : ids = []
  · simp [orAmong, among, hnone, pure, Reported.ofExcept]
  · have htest : (Test.membership true ids).operand.spelled.isOk = true := isOk_spelled_ids h
    simp [orAmong, among, hnone, Filter.addValues, Predicate.ofValues, Predicate.itemsOf, Predicate.fieldName,
      hids.resolve_left hnone, Predicate.ofTest, htest, Filter.add, Filter.setClause, Filter.clause,
      Reported.outcome_map]

theorem writtenFilter_eq (plans : List PlannedWrite) : (r.writtenFilter plans).outcome =
    (orAmong r.mapping.identity (plans.filterMap (·.knownId?)) ⟨[], [],
      among Mapping.nativeField (plans.filterMap (·.freshId?)) (isOk_spelled_freshIds plans)⟩).outcome := by
  have hfresh :=
    orAmong_outcome Filter.empty (.inr (by decide : Mapping.nativeField ≠ "")) (isOk_spelled_freshIds plans)
  rw [writtenFilter, Reported.outcome_bind, hfresh]
  rfl

theorem writtenFilter_outcome (h : AreTold plans)
    (hknown : plans.filterMap (·.knownId?) = [] ∨ r.mapping.identity ≠ "") :
    (r.writtenFilter plans).outcome = .ok ⟨[], [], writtenClause r.mapping.identity h⟩ := by
  rw [writtenFilter_eq, orAmong_outcome _ hknown h]
  rfl

/-- An identity that has no name cannot be looked for. -/
theorem writtenFilter_unnamed (hknown : plans.filterMap (·.knownId?) ≠ []) (hname : r.mapping.identity = "") :
    (r.writtenFilter plans).outcome = .error .emptyFieldName := by
  rw [writtenFilter_eq]
  simp [orAmong, hknown, hname, Filter.addValues, Predicate.ofValues, Predicate.itemsOf, Predicate.fieldName]

/-- Nor can one that cannot be told of. -/
theorem writtenFilter_untold (h : ¬AreTold plans) (hname : r.mapping.identity ≠ "") :
    (r.writtenFilter plans).outcome = .error (.tooLongToShow IntegerText.mostDigits) := by
  have hknown : plans.filterMap (·.knownId?) ≠ [] := fun hnone => h (by simp [AreTold, hnone])
  have htest : ¬(Test.membership true (plans.filterMap (·.knownId?))).operand.spelled.isOk = true := by
    rw [Test.operand, Value.isOk_spelled_list, List.all_eq_true]
    exact h
  rw [writtenFilter_eq]
  simp [orAmong, hknown, hname, Filter.addValues, Predicate.ofValues, Predicate.itemsOf, Predicate.fieldName,
    Predicate.ofTest, htest]

/-- The search for what was written can be asked for, or fails for an identity that has no name or cannot be told
of. -/
theorem writtenFilter_cases (plans : List PlannedWrite) :
    (∃ h : AreTold plans, (r.writtenFilter plans).outcome = .ok ⟨[], [], writtenClause r.mapping.identity h⟩) ∨
      (r.writtenFilter plans).outcome = .error .emptyFieldName ∨
      (r.writtenFilter plans).outcome = .error (.tooLongToShow IntegerText.mostDigits) := by
  by_cases hnamed : plans.filterMap (·.knownId?) = [] ∨ r.mapping.identity ≠ ""
  · by_cases htold : AreTold plans
    · exact .inl ⟨htold, writtenFilter_outcome htold hnamed⟩
    · have hknown : plans.filterMap (·.knownId?) ≠ [] := fun hnone => htold (by simp [AreTold, hnone])
      exact .inr (.inr (writtenFilter_untold htold (hnamed.resolve_left hknown)))
  · rw [not_or, not_not] at hnamed
    exact .inr (.inl (writtenFilter_unnamed hnamed.1 hnamed.2))

theorem mem_among {field : String} {ids : List Value} {h : ∀ v ∈ ids, v.spelled.isOk = true} {p : Predicate} :
    p ∈ among field ids h ↔ ids ≠ [] ∧ p = ⟨field, .membership true ids, isOk_spelled_ids h⟩ := by
  cases ids <;> simp [among]

/-- A membership test has a query, and a document fulfils it if the field holds one of the values. -/
theorem holdsBy_among {m : Mapping} {name : String} {ids : List Value} (hids : ∀ v ∈ ids, v.isAtom = true)
    (h : ∀ v ∈ ids, v.spelled.isOk = true) (d : Document) :
    ((⟨name, .membership true ids, isOk_spelled_ids h⟩ : Predicate).queryIn m).holds
        (fun field c => d.fulfils field c.document) = true ↔
      ∃ v ∈ ids, ((d.stored? (m.storageName name)).getD .null == v.nativeFor (m.storageName name)) =
        true := by
  have hconverted : ids.map Value.converted = ids := by
    conv_rhs => rw [← List.map_id ids]
    exact List.map_congr_left fun v hv => Value.converted_of_isAtom (hids v hv)
  rw [Predicate.queryIn, Test.converted, hconverted, Test.query, Query.holds, Condition.document,
    Document.fulfils_among]
  simp [List.any_map]

theorem exists_among {m : Mapping} (field : String) (ids : List Value)
    (hids : ∀ v ∈ ids, v.isAtom = true) (h : ∀ v ∈ ids, v.spelled.isOk = true) (d : Document) :
    (∃ p ∈ among field ids h, (p.queryIn m).holds (fun field c => d.fulfils field c.document) = true) ↔
      ∃ v ∈ ids, ((d.stored? (m.storageName field)).getD .null ==
        v.nativeFor (m.storageName field)) = true := by
  rw [← holdsBy_among hids h]
  constructor
  · rintro ⟨p, hp, hholds⟩
    obtain ⟨_, rfl⟩ := mem_among.mp hp
    exact hholds
  · intro hholds
    obtain ⟨v, hv, _⟩ := (holdsBy_among hids h d).mp hholds
    exact ⟨_, mem_among.mpr ⟨List.ne_nil_of_mem hv, rfl⟩, hholds⟩

theorem not_refuses_among {field : String} {ids : List Value} (hids : ∀ v ∈ ids, v.isAtom = true)
    (h : ∀ v ∈ ids, v.spelled.isOk = true) :
    ∀ p ∈ among field ids h, p.test.operand.holdsView = false ∧ p.test.refusesPreparation = false := by
  have hview : ∀ vs : List Value, (∀ v ∈ vs, v.isAtom = true) → Value.itemsHoldView vs = false := by
    intro vs hvs
    induction vs with
    | nil => rfl
    | cons v vs ih =>
      rw [Value.itemsHoldView, Value.holdsView_of_isAtom (hvs v (by simp)),
        ih fun w hw => hvs w (by simp [hw])]
      rfl
  have hrefuses : ∀ vs : List Value, (∀ v ∈ vs, v.isAtom = true) →
      Value.itemsRefusePreparation vs = false := by
    intro vs hvs
    induction vs with
    | nil => rfl
    | cons v vs ih =>
      rw [Value.itemsRefusePreparation, Value.refusesPreparation_of_isAtom (hvs v (by simp)),
        ih fun w hw => hvs w (by simp [hw])]
      rfl
  intro p hp
  obtain ⟨_, rfl⟩ := mem_among.mp hp
  exact ⟨hview ids hids, hrefuses ids hids⟩

theorem isAtom_of_freshId {v : Value} (hv : v ∈ plans.filterMap (·.freshId?)) : v.isAtom = true := by
  obtain ⟨o, rfl⟩ := eq_objectId_of_freshId hv
  rfl

theorem arranged_writtenClause {identity : String} (hother : identity ≠ Mapping.nativeField) (h : AreTold plans) :
    (writtenClause identity h).arranged = writtenClause identity h := by
  have hkind : ∀ p ∈ writtenClause identity h, p.test.kind = .membership true := by
    intro p hp
    rcases List.mem_append.mp hp with hp | hp
    · obtain ⟨_, rfl⟩ := mem_among.mp hp
      rfl
    · obtain ⟨_, rfl⟩ := mem_among.mp hp
      rfl
  rw [Clause.arranged_of_kind hkind, writtenClause, among, among]
  split <;> split <;> simp [Clause.byField, Clause.fields, Clause.onField, distinct, hother, hother.symm]

/-- The condition that a stored field holds one of some values, if there are any. -/
def heldAmong (field : String) (vs : List Value) : List Value :=
  if vs.isEmpty then [] else [.single field (.single "$in" (.list vs))]

/-- The search for one of some identifiers, or for one of some identities in a field. -/
def searchDocument (field : String) (fresh known : List Value) : Value :=
  .single "$or" (.list (heldAmong Mapping.nativeField fresh ++ heldAmong field known))

/-- The query of a membership test is the condition that it states. -/
theorem documents_among {m : Mapping} {name : String} {ids : List Value} (hids : ∀ v ∈ ids, v.isAtom = true)
    (h : ∀ v ∈ ids, v.spelled.isOk = true) :
    Query.documents ((among name ids h).map fun p => p.queryIn m) =
      heldAmong (m.storageName name) (ids.map fun v => v.nativeFor (m.storageName name)) := by
  have hconverted : ids.map Value.converted = ids := by
    conv_rhs => rw [← List.map_id ids]
    exact List.map_congr_left fun v hv => Value.converted_of_isAtom (hids v hv)
  rw [among, heldAmong, List.isEmpty_map]
  split
  · rfl
  · rw [List.map_singleton, Predicate.queryIn, Test.converted, hconverted]
    rfl


theorem not_isPattern_among {m : Mapping} {name : String} {ids : List Value} {h : ∀ v ∈ ids, v.spelled.isOk = true} :
    ∀ p ∈ among name ids h, (p.queryIn m).isPattern = false := by
  intro p hp
  obtain ⟨_, rfl⟩ := mem_among.mp hp
  rfl

/-- The query of the search for what was written, spelled out. -/
theorem document_written {m : Mapping} (hids : ∀ v ∈ plans.filterMap (·.knownId?), v.isAtom = true)
    (hne : plans ≠ []) (hother : m.identity ≠ Mapping.nativeField) (h : AreTold plans) :
    ((⟨[], [], writtenClause m.identity h⟩ : Filter).queryIn m).document =
      searchDocument (m.storageName m.identity) (plans.filterMap (·.freshId?))
        ((plans.filterMap (·.knownId?)).map fun v => v.nativeFor (m.storageName m.identity)) := by
  have hnonempty : (writtenClause m.identity h).isEmpty = false := by
    obtain ⟨plan, plans', rfl⟩ := List.exists_cons_of_ne_nil hne
    cases plan <;> simp [writtenClause, among, PlannedWrite.freshId?, PlannedWrite.knownId?]
  have hplain : ∀ q ∈ (writtenClause m.identity h).map fun p => p.queryIn m, q.isPattern = false := by
    intro q hq
    obtain ⟨p, hp, rfl⟩ := List.mem_map.mp hq
    rcases List.mem_append.mp hp with hp | hp
    · exact not_isPattern_among p hp
    · exact not_isPattern_among p hp
  have hpatterns : ((writtenClause m.identity h).map fun p => p.queryIn m).filter (fun q => q.isPattern) = [] :=
    List.filter_eq_nil_iff.mpr fun q hq => by simp [hplain q hq]
  have hothers : ((writtenClause m.identity h).map fun p => p.queryIn m).filter (fun q => !q.isPattern) =
      (writtenClause m.identity h).map fun p => p.queryIn m :=
    List.filter_eq_self.mpr fun q hq => by rw [hplain q hq]; rfl
  have hnative : m.storageName Mapping.nativeField = Mapping.nativeField := if_pos rfl
  have hfresh : (plans.filterMap (·.freshId?)).map (fun v => v.nativeFor Mapping.nativeField) =
      plans.filterMap (·.freshId?) := by
    conv_rhs => rw [← List.map_id (plans.filterMap (·.freshId?))]
    refine List.map_congr_left fun v hv => ?_
    obtain ⟨o, rfl⟩ := eq_objectId_of_freshId hv
    rfl
  have hqueries : (⟨[], [], writtenClause m.identity h⟩ : Filter).queryIn m =
      .any ((writtenClause m.identity h).map fun p => p.queryIn m) := by
    have hasked : (fun p => (ClauseGroup.should.asked p).queryIn m) = fun p => p.queryIn m := rfl
    simp only [Filter.queryIn, Clause.queryIn, hnonempty, arranged_writtenClause hother h, hasked,
      ClauseGroup.combine, hpatterns, hothers]
    simp [Query.ofGroups, ClauseGroup.join]
  rw [hqueries, Query.document, searchDocument, writtenClause, List.map_append, Query.documents_eq_map,
    List.map_append, ← Query.documents_eq_map, ← Query.documents_eq_map,
    documents_among (fun v hv => isAtom_of_freshId hv), documents_among hids, hnative, hfresh]

variable {m : Mapping} (hids : ∀ v ∈ plans.filterMap (·.knownId?), v.isAtom = true) (htold : AreTold plans)
include hids

theorem refetch_outcome (hidentity : m.maps m.identity = true) :
    (queryOf (.filter ⟨[], [], writtenClause m.identity htold⟩) m).outcome =
      .ok ((⟨[], [], writtenClause m.identity htold⟩ : Filter).queryIn m).document := by
  have hclause : ∀ p ∈ writtenClause m.identity htold, m.maps p.field = true ∧
      p.test.operand.holdsView = false ∧ p.test.refusesPreparation = false := by
    intro p hp
    rcases List.mem_append.mp hp with hp | hp
    · refine ⟨?_, not_refuses_among (fun v hv => isAtom_of_freshId hv) _ p hp⟩
      obtain ⟨_, rfl⟩ := mem_among.mp hp
      simp [Mapping.maps]
    · refine ⟨?_, not_refuses_among hids htold p hp⟩
      obtain ⟨_, rfl⟩ := mem_among.mp hp
      exact hidentity
  rw [Filter.outcome_eq]
  · have hno : (⟨[], [], writtenClause m.identity htold⟩ : Filter).refusesPreparation = false := by
      simpa [Filter.refusesPreparation, Clause.refusesPreparation] using
        fun p hp => (hclause p hp).2.2
    rw [hno]
    rfl
  · simpa [Filter.predicates] using fun p hp => (hclause p hp).1
  · simpa [Filter.isCopyable, Clause.isCopyable] using fun p hp => (hclause p hp).2.1

/-- That query selects the documents that hold one of the fresh identifiers, or one of the known
identities where the identity is looked for. -/
theorem refetch_selects (hne : plans ≠ []) (d : Document) :
    QueryDocument.holds d.fulfils ((⟨[], [], writtenClause m.identity htold⟩ : Filter).queryIn m).document =
        true ↔
      (∃ v ∈ plans.filterMap (·.freshId?), ((d.stored? Mapping.nativeField).getD .null == v) = true) ∨
        ∃ v ∈ plans.filterMap (·.knownId?),
          ((d.stored? (m.storageName m.identity)).getD .null ==
            v.nativeFor (m.storageName m.identity)) = true := by
  have hnonempty : writtenClause m.identity htold ≠ [] := by
    obtain ⟨plan, plans', rfl⟩ := List.exists_cons_of_ne_nil hne
    cases plan <;> simp [writtenClause, among, PlannedWrite.freshId?, PlannedWrite.knownId?]
  have hnative : m.storageName Mapping.nativeField = Mapping.nativeField := by
    simp [Mapping.storageName]
  have hfresh : (∃ v ∈ plans.filterMap (·.freshId?), ((d.stored? Mapping.nativeField).getD .null ==
        v.nativeFor Mapping.nativeField) = true) ↔
      ∃ v ∈ plans.filterMap (·.freshId?), ((d.stored? Mapping.nativeField).getD .null == v) = true := by
    refine exists_congr fun v => and_congr_right fun hv => ?_
    obtain ⟨o, rfl⟩ := eq_objectId_of_freshId hv
    rfl
  have hfreshHolds := exists_among (m := m) Mapping.nativeField (plans.filterMap (·.freshId?))
    (fun v hv => isAtom_of_freshId hv) (isOk_spelled_freshIds plans) d
  rw [hnative, hfresh] at hfreshHolds
  rw [Filter.holds_document, Filter.holds_queryIn]
  simp only [Filter.isEmpty_iff, hnonempty, and_false, false_or, ne_eq, not_true, or_self, false_and]
  rw [writtenClause]
  simp only [List.mem_append, or_and_right, exists_or]
  exact or_congr hfreshHolds (exists_among _ _ hids htold d)

end EntityStore.Repository

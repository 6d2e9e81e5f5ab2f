import EntityStore.ErrorKind
import EntityStore.Proofs.Query.Meaning

namespace EntityStore

namespace Predicate

/-- Whether the value of a predicate can be copied, with the filter and once more when it is prepared. -/
def isCopyable (p : Predicate) : Bool := !p.test.operand.holdsView && !p.test.refusesPreparation

theorem isStated_iff {m : Mapping} {p : Predicate} :
    p.IsStated m ↔ m.maps p.field = true ∧ p.isCopyable = true := by
  rw [isCopyable, Bool.and_eq_true, Bool.not_eq_true', Bool.not_eq_true']
  exact ⟨fun h => ⟨h.maps, h.isCopyable, h.isPrepared⟩, fun h => ⟨h.1, h.2.1, h.2.2⟩⟩

theorem isCopyable_opposite (p : Predicate) : p.opposite.isCopyable = p.isCopyable := by
  rw [isCopyable, isCopyable, opposite, Test.operand_opposite, Test.refusesPreparation_opposite]

/-- Whether a failure is that of a predicate: of its field, or of its value. -/
def FailsWith (m : Mapping) (e : Failure) (p : Predicate) : Prop :=
  m.maps p.field = false ∧ e = .unmappedField p.field m.collection ∨
    p.isCopyable = false ∧ e = Value.viewRefusal

theorem failsWith_of_query {m : Mapping} {p : Predicate} {e : Failure} (h : p.query m = .error e) :
    p.FailsWith m e := by
  rw [query, MappingArgument.storageField, Mapping.storageField_text, Test.prepared_eq] at h
  cases hmaps : m.maps p.field with
  | false =>
    rw [hmaps] at h
    exact .inl ⟨hmaps, (Except.error.inj h).symm⟩
  | true =>
    cases hprepared : p.test.refusesPreparation with
    | false =>
      rw [hmaps, hprepared] at h
      cases h
    | true =>
      rw [hmaps, hprepared] at h
      exact .inr ⟨by simp [isCopyable, hprepared], (Except.error.inj h).symm⟩

theorem FailsWith.asked {m : Mapping} {e : Failure} {group : ClauseGroup} {p : Predicate}
    (h : (group.asked p).FailsWith m e) : p.FailsWith m e := by
  cases group with
  | mustNot =>
    rw [ClauseGroup.asked, FailsWith, isCopyable_opposite] at h
    exact h
  | _ => exact h

end Predicate

theorem Clause.failsWith_of_query {m : Mapping} {group : ClauseGroup} {c : Clause} {e : Failure}
    (h : c.query m group = .error e) : ∃ p ∈ c, p.FailsWith m e := by
  rw [query] at h
  split at h
  · cases h
  · cases hqueries : c.arranged.mapM fun p => (group.asked p).query m with
    | ok queries =>
      rw [hqueries] at h
      cases h
    | error d =>
      rw [hqueries] at h
      obtain rfl := Except.error.inj h
      obtain ⟨p, hp, hfails⟩ := Outcome.exists_mem_of_mapM_error hqueries
      exact ⟨p, (arranged_perm c).mem_iff.mp hp, (Predicate.failsWith_of_query hfails).asked⟩

namespace Filter

variable {m : Mapping} {f : Filter}

theorem isCopyable_iff : f.isCopyable = true ↔ ∀ p ∈ f.predicates, p.test.operand.holdsView = false := by
  simp [isCopyable, Clause.isCopyable, predicates, or_imp, forall_and, and_assoc]

theorem refusesPreparation_iff :
    f.refusesPreparation = false ↔ ∀ p ∈ f.predicates, p.test.refusesPreparation = false := by
  simp [refusesPreparation, Clause.refusesPreparation, predicates, or_imp, forall_and, and_assoc]

/-- What keeps a filter from its query is one of its predicates. -/
theorem failsWith_of_outcome {e : Failure} (h : (queryOf (.filter f) m).outcome = .error e) :
    ∃ p ∈ f.predicates, p.FailsWith m e := by
  have hclause (group : ClauseGroup) {c : Clause} (hc : ∀ p ∈ c, p ∈ f.predicates) {d : Failure}
      (hd : c.query m group = .error d) : ∃ p ∈ f.predicates, p.FailsWith m d := by
    obtain ⟨p, hp, hfails⟩ := Clause.failsWith_of_query hd
    exact ⟨p, hc p hp, hfails⟩
  rw [outcome_queryOf, query] at h
  cases hcopy : f.isCopyable with
  | false =>
    obtain ⟨p, hp, hview⟩ : ∃ p ∈ f.predicates, p.test.operand.holdsView = true := by
      simpa [hcopy] using isCopyable_iff (f := f)
    rw [hcopy] at h
    exact ⟨p, hp, .inr ⟨by simp [Predicate.isCopyable, hview], (Except.error.inj h).symm⟩⟩
  | true =>
    rw [hcopy] at h
    cases hmust : f.must.query m .must with
    | error d =>
      rw [hmust] at h
      obtain rfl := Except.error.inj h
      exact hclause .must (fun p hp => by simp [predicates, hp]) hmust
    | ok must =>
      cases hmustNot : f.mustNot.query m .mustNot with
      | error d =>
        rw [hmust, hmustNot] at h
        obtain rfl := Except.error.inj h
        exact hclause .mustNot (fun p hp => by simp [predicates, hp]) hmustNot
      | ok mustNot =>
        cases hshould : f.should.query m .should with
        | error d =>
          rw [hmust, hmustNot, hshould] at h
          obtain rfl := Except.error.inj h
          exact hclause .should (fun p hp => by simp [predicates, hp]) hshould
        | ok should =>
          rw [hmust, hmustNot, hshould] at h
          cases h

/-- If all values can be copied, it is a field without a storage name that keeps a filter from its query. -/
theorem kind?_of_outcome {e : Failure} (h : (queryOf (.filter f) m).outcome = .error e)
    (hcopyable : ∀ p ∈ f.predicates, p.isCopyable = true) : e.kind? = some .fieldMapping := by
  obtain ⟨p, hp, ⟨_, rfl⟩ | ⟨hno, _⟩⟩ := failsWith_of_outcome h
  · rfl
  · exact absurd (hcopyable p hp) (by simp [hno])

theorem exists_error_of_not_isStated (h : ¬∀ p ∈ f.predicates, p.IsStated m) :
    ∃ e, (queryOf (.filter f) m).outcome = .error e := by
  cases houtcome : (queryOf (.filter f) m).outcome with
  | ok d => exact (h (isStated_of_outcome houtcome)).elim
  | error e => exact ⟨e, rfl⟩

theorem outcome_of_isStated (h : ∀ p ∈ f.predicates, p.IsStated m) :
    (queryOf (.filter f) m).outcome = .ok (f.queryIn m).document := by
  have hprepared : f.refusesPreparation = false := refusesPreparation_iff.mpr fun p hp => (h p hp).isPrepared
  rw [outcome_eq m f (fun p hp => (h p hp).maps) (isCopyable_iff.mpr fun p hp => (h p hp).isCopyable), hprepared]
  rfl

end Filter

end EntityStore

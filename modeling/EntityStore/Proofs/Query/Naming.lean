import EntityStore.Proofs.Engine.Refusing
import EntityStore.Proofs.Query.Meaning
import EntityStore.Repository.Basic

namespace EntityStore

/-- Whether a value can be looked up as the name of a field, and shown if it is none. -/
def Value.isName (v : Value) : Bool := v.asKey.isOk && v.display.isOk

theorem Value.isOk_asKey (v : Value) : v.asKey.isOk = v.unhashable?.isNone := by
  rw [asKey]
  cases v.unhashable? <;> rfl

/-- What can be looked up and shown can be spelled: records that are spelled otherwise than shown are no keys. -/
theorem Value.isOk_spelled_of_isName : ∀ {v : Value}, v.isName = true → v.spelled.isOk = true
  | .entityId id, h => by
    have hid : id.spelled.isOk = true := isOk_spelled_of_isName (by
      simpa [isName, isOk_asKey, unhashable?, display] using h)
    obtain ⟨shown, hshown⟩ := Outcome.exists_of_isOk hid
    rw [spelled, hshown]
    rfl
  | .record .model _ _, h | .record .data _ _, h | .document .readOnly _, h => by
    simp [isName, isOk_asKey, unhashable?, isNeverKey] at h
  | .document .plain _, h | .document .ordered _, h | .null, h | .bool _, h | .int _, h | .float _, h | .bytes _, h
  | .list _, h | .tuple _, h | .set _, h | .frozenSet _, h | .pattern _, h | .thing, h | .recordType _, h =>
    (Bool.and_eq_true_iff.mp h).2
  | .text _, _ | .timestamp _, _ | .date _, _ | .objectId _, _ | .decimal _, _ | .url _, _ | .direction _, _
  | .record .object _ _, _ => rfl
termination_by structural v => v

namespace Mapping

/-- Whether a value is the name of a logical field that has a storage name. -/
def mapsName (m : Mapping) : Value → Bool
  | .text s => m.maps s
  | _ => false

/-- Whether all logical fields among some have storage names. -/
def MapsAll (m : Mapping) (names : List Value) : Prop := ∀ name ∈ names, m.mapsName name = true

theorem checks_storageField (m : Mapping) (name : Value) :
    Checks (m.storageField name) (name.isName = true) (m.mapsName name = true) := by
  by_cases htext : ∃ s, name = .text s
  · obtain ⟨s, rfl⟩ := htext
    have hfield := storageField_text m s
    cases h : m.maps s with
    | true =>
      rw [h, if_pos rfl] at hfield
      exact ⟨fun _ => hfield ▸ .ok _, fun _ _ => ⟨_, hfield⟩, fun _ hno => absurd h hno⟩
    | false =>
      rw [h, if_neg Bool.false_ne_true] at hfield
      have hno : m.mapsName (.text s) ≠ true := by simp [mapsName, h]
      exact ⟨fun hgood => absurd hgood hno, fun _ hgood => absurd hgood hno, fun _ _ => ⟨_, hfield, rfl⟩⟩
  -- No other value equals the name of the native field.
  · have hno : m.mapsName name ≠ true := by
      intro h
      cases name with
      | text s => exact htext ⟨s, rfl⟩
      | _ => exact absurd h Bool.false_ne_true
    refine ⟨fun hgood => absurd hgood hno, fun _ hgood => absurd hgood hno, fun hname _ => ?_⟩
    have hnative : (name == .text nativeField) = false := by
      rw [Bool.eq_false_iff]
      exact fun h => htext ⟨_, (Value.beq_text _ _).mp h⟩
    obtain ⟨hkey, hdisplay⟩ := (Bool.and_eq_true _ _).mp hname
    obtain ⟨key, hkey⟩ := Outcome.exists_of_isOk hkey
    obtain ⟨shown, hshown⟩ := Outcome.exists_of_isOk hdisplay
    refine ⟨.unmappedField shown m.collection, ?_, rfl⟩
    rw [storageField, hnative, if_neg Bool.false_ne_true, hkey, Outcome.ok_bind]
    · rw [hshown]
      rfl
    · exact fun s hs => htext ⟨s, hs⟩

end Mapping

section

variable (m : Mapping)

/-- The names of the fields to sort by. -/
def SortOrder.names (sort : Option SortOrder) : List Value := sort.elim [] fun s => Dictionary.keys s.orders

/-- The names of the fields of a selection. -/
def Selection.namesOf (fields : Option Selection) : List Value := fields.elim [] (·.names)

theorem checks_sortKeys (sort : Option SortOrder) :
    Checks (Strategies.standard.sortKeys sort m).outcome (∀ name ∈ SortOrder.names sort, name.isName = true)
      (m.MapsAll (SortOrder.names sort)) := by
  have hnone : Checks (.ok (SortKeys.value [])) (∀ name ∈ ([] : List Value), name.isName = true) (m.MapsAll []) :=
    (Checks.ofNeverRefuses (.ok _) fun _ => ⟨_, rfl⟩).imp (fun _ => trivial) (by simp [Mapping.MapsAll])
  cases sort with
  | none => exact hnone
  | some s =>
    obtain ⟨orders⟩ := s
    cases orders with
    | nil => exact hnone
    | cons order orders =>
      have hkeys : Checks (SortOrder.keys m ⟨order :: orders⟩)
          (∀ p ∈ order :: orders, p.1.isName = true) (∀ p ∈ order :: orders, m.mapsName p.1 = true) :=
        Checks.mapM fun p _ => (m.checks_storageField p.1).map fun field => (field, p.2.sign)
      have houtcome : (Strategies.standard.sortKeys (some ⟨order :: orders⟩) m).outcome =
          SortOrder.keys m ⟨order :: orders⟩ >>= fun keys => .ok keys.value := by
        simp [Strategies.standard, Strategies.sortKeysValue, SortOrder.outcome_sortKeysOf, Reported.outcome_map]
      rw [houtcome]
      refine (hkeys.map SortKeys.value).imp (fun h p hp => h p.1 (List.mem_map_of_mem hp)) ?_
      simp [Mapping.MapsAll, SortOrder.names, Dictionary.keys]

theorem checks_projection (fields : Option Selection) :
    Checks (Strategies.standard.projection fields m).outcome
      (∀ name ∈ Selection.namesOf fields, name.isName = true) (m.MapsAll (Selection.namesOf fields)) := by
  have hnone : Checks (.ok Value.null) (∀ name ∈ ([] : List Value), name.isName = true) (m.MapsAll []) :=
    (Checks.ofNeverRefuses (.ok _) fun _ => ⟨_, rfl⟩).imp (fun _ => trivial) (by simp [Mapping.MapsAll])
  cases fields with
  | none => exact hnone
  | some s =>
    obtain ⟨names⟩ := s
    cases names with
    | nil => exact hnone
    | cons name names =>
      have hfields : Checks ((name :: names).mapM m.storageField)
          (∀ n ∈ name :: names, n.isName = true) (m.MapsAll (name :: names)) :=
        Checks.mapM fun n _ => m.checks_storageField n
      have houtcome : (Strategies.standard.projection (some ⟨name :: names⟩) m).outcome =
          (name :: names).mapM m.storageField >>= fun fields =>
            .ok (Value.plain (Dictionary.ofList (fields.map fun field => (.text field, .int 1)))) := by
        have hstorage : (MappingArgument.mapping m).storageField = m.storageField := rfl
        have hprojection := Selection.outcome_projectionOf (s := ⟨name :: names⟩) rfl m
        simp [Strategies.standard, Strategies.selectionDocument, hprojection, Selection.projection, hstorage,
          Reported.outcome_map]
      rw [houtcome]
      exact hfields.map _

/-- The names of the fields that a filter tests. -/
def FilterArgument.names : FilterArgument → List Value
  | .filter f => f.predicates.map fun p => .text p.field
  | _ => []

/-- Whether there is a filter with values that can be copied and prepared, or no filter at all. -/
def FilterArgument.isUsable : FilterArgument → Bool
  | .absent => true
  | .filter f => f.isCopyable && !f.refusesPreparation
  | .other _ => false

theorem Predicate.checks_query (p : Predicate) :
    Checks (p.query m) (p.test.refusesPreparation = false) (m.maps p.field = true) := by
  have hprepared : Checks p.test.prepared (p.test.refusesPreparation = false) True := by
    rw [Test.prepared_eq]
    cases p.test.refusesPreparation with
    | true => exact .ofNeverRefuses (.error rfl) fun h => absurd h.symm Bool.false_ne_true
    | false => exact .ofNeverRefuses (.ok _) fun _ => ⟨_, rfl⟩
  have hquery : Checks (p.query m) ((Value.text p.field).isName = true ∧ p.test.refusesPreparation = false ∧ True)
      (m.mapsName (.text p.field) = true ∧ True ∧ True) :=
    (m.checks_storageField (.text p.field)).bind fun field => hprepared.bind fun test =>
      .ofNeverRefuses (.ok _) fun _ => ⟨_, rfl⟩
  exact hquery.imp (fun h => ⟨rfl, h, trivial⟩) (by simp [Mapping.mapsName])

theorem Clause.checks_query (group : ClauseGroup) (c : Clause) :
    Checks (c.query m group) (c.refusesPreparation = false) (∀ p ∈ c, m.maps p.field = true) := by
  have hasked (p : Predicate) : Checks ((group.asked p).query m) (p.test.refusesPreparation = false)
      (m.maps p.field = true) := by
    cases group with
    | mustNot =>
      have h := p.opposite.checks_query m
      rwa [Predicate.opposite, Test.refusesPreparation_opposite] at h
    | _ => exact p.checks_query m
  rw [query]
  split
  · next hempty =>
    obtain rfl := List.isEmpty_iff.mp hempty
    exact (Checks.ofNeverRefuses (.ok _) fun _ => ⟨_, rfl⟩).imp (fun _ => trivial) (by simp)
  · have hqueries : Checks (c.arranged.mapM fun p => (group.asked p).query m)
        (∀ p ∈ c.arranged, p.test.refusesPreparation = false) (∀ p ∈ c.arranged, m.maps p.field = true) :=
      Checks.mapM fun p _ => hasked p
    refine (hqueries.map fun queries => some (group.combine queries)).imp (fun h p hp => ?_) ?_
    · have hp := (arranged_perm c).mem_iff.mp hp
      simpa using List.any_eq_false.mp h p hp
    · exact forall_congr' fun p => by rw [(arranged_perm c).mem_iff]

theorem Filter.checks_query (f : Filter) :
    Checks (f.query m) (f.isCopyable = true ∧ f.refusesPreparation = false)
      (∀ p ∈ f.predicates, m.maps p.field = true) := by
  cases hcopy : f.isCopyable with
  | false =>
    have hquery : f.query m = .error Value.viewRefusal := by
      rw [query, if_pos (by simp [hcopy])]
      rfl
    rw [hquery]
    exact ⟨fun _ => .error rfl, fun h => absurd h.1 Bool.false_ne_true, fun h => absurd h.1 Bool.false_ne_true⟩
  | true =>
    have hquery : f.query m = f.must.query m .must >>= fun must => f.mustNot.query m .mustNot >>= fun mustNot =>
        f.should.query m .should >>= fun should => .ok (Query.ofGroups must mustNot should) := by
      rw [query, if_neg (by simp [hcopy])]
      rfl
    have hclauses := (f.must.checks_query m .must).bind fun must => (f.mustNot.checks_query m .mustNot).bind
      fun mustNot => (f.should.checks_query m .should).map fun should => Query.ofGroups must mustNot should
    rw [hquery]
    refine hclauses.imp ?_ ?_
    · simp [refusesPreparation, and_assoc]
    · simp [predicates, or_imp, forall_and]

theorem checks_filterQuery (filter : FilterArgument) :
    Checks (Strategies.standard.filterQuery filter m).outcome (filter.isUsable = true) (m.MapsAll filter.names) := by
  cases filter with
  | absent =>
    exact (Checks.ofNeverRefuses (.ok _) fun _ => ⟨_, rfl⟩).imp (fun _ => trivial)
      (by simp [Mapping.MapsAll, FilterArgument.names])
  | other v =>
    exact ⟨fun _ => .error rfl, fun h => absurd h Bool.false_ne_true, fun h => absurd h Bool.false_ne_true⟩
  | filter f =>
    have houtcome : (Strategies.standard.filterQuery (.filter f) m).outcome =
        f.query m >>= fun q => .ok q.document := Filter.outcome_queryOf m f
    rw [houtcome]
    refine ((f.checks_query m).map (·.document)).imp ?_ ?_
    · simp [FilterArgument.isUsable]
    · simp [Mapping.MapsAll, FilterArgument.names, Mapping.mapsName]

end

end EntityStore

import EntityStore.Proofs.Query.Fields
import EntityStore.Proofs.Value.Ready

namespace EntityStore

open Value

theorem Condition.isReady_equality {v : Value} (hv : v.isReady = true) (holds : Bool) :
    (Condition.equality holds v).document.isReady = true := by
  cases holds <;> simp [document, isReady_single, hv]

theorem Condition.isReady_pattern (holds : Bool) (source : String) :
    (Condition.pattern holds source).document.isReady = true := by
  cases holds <;> rfl

theorem Condition.isReady_between {low high : Value} (hlow : low.isReady = true) (hhigh : high.isReady = true) :
    (Condition.between low high).document.isReady = true := by
  simp [document, isReady, fieldsAreReady, fieldIsReady, hlow, hhigh]

theorem Condition.isReady_membership {items : List Value} (h : ∀ v ∈ items, v.isReady = true) (holds : Bool) :
    (Condition.membership holds items).document.isReady = true := by
  have hlist : (Value.list items).isReady = true := (isReady_list items).mpr h
  cases holds <;> simp only [document, isReady_single, hlist]

namespace Query

mutual

/-- A query is taken as it is if the conditions are that it puts on fields. -/
theorem isReady_document : ∀ q : Query, (∀ x ∈ q.fieldConditions, x.2.document.isReady = true) →
    q.document.isReady = true
  | .everything => fun _ => rfl
  | .field name c => fun h => by
    rw [document, isReady_single]
    exact h (name, c) List.mem_cons_self
  | .all queries => fun h => by
    rw [document, isReady_single]
    exact itemsAreReady_documents queries h
  | .any queries => fun h => by
    rw [document, isReady_single]
    exact itemsAreReady_documents queries h
termination_by structural q => q

theorem itemsAreReady_documents : ∀ qs : List Query,
    (∀ x ∈ fieldConditionsOf qs, x.2.document.isReady = true) → itemsAreReady (documents qs) = true
  | [] => fun _ => rfl
  | q :: qs => fun h => by
    obtain ⟨hq, hqs⟩ := List.forall_mem_append.mp h
    exact (Bool.and_eq_true _ _).mpr ⟨isReady_document q hq, itemsAreReady_documents qs hqs⟩
termination_by structural qs => qs

end

end Query

namespace Test

theorem isReady_operand_converted (t : Test) : t.converted.operand.isReady = true := by
  cases t with
  | equality holds v => exact isReady_converted v
  | comparison c v => exact isReady_converted v
  | range holds low high =>
    simp [converted, operand, isReady, itemsAreReady, isReady_converted]
  | membership holds items =>
    refine (isReady_list _).mpr fun v hv => ?_
    obtain ⟨w, _, rfl⟩ := List.mem_map.mp hv
    exact isReady_converted w
  | text part holds s => rfl
  | emptiness holds => rfl

/-- What a test asks for is taken as it is if what is tested against is. -/
theorem isReady_query {t : Test} (h : t.operand.isReady = true) (field : String) :
    ∀ x ∈ (t.query field).fieldConditions, x.2.document.isReady = true := by
  have hone {c : Condition} (hc : c.document.isReady = true) :
      ∀ x ∈ (Query.field field c).fieldConditions, x.2.document.isReady = true :=
    List.forall_mem_singleton.mpr hc
  cases t with
  | equality holds v =>
    have hequality := hone (Condition.isReady_equality (isReady_nativeFor field h) holds)
    cases v with
    | text s =>
      rw [query]
      split
      · exact hequality
      · exact hone (Condition.isReady_pattern holds _)
    | _ => exact hequality
  | text part holds s => exact hone (Condition.isReady_pattern holds _)
  | comparison c v => exact hone ((isReady_single _ _).trans (isReady_nativeFor field h))
  | range holds low high =>
    obtain ⟨hlow, hhigh⟩ : low.isReady = true ∧ high.isReady = true := by
      simpa [operand, isReady, itemsAreReady] using h
    cases holds with
    | true => exact hone (Condition.isReady_between (isReady_nativeFor field hlow) (isReady_nativeFor field hhigh))
    | false =>
      refine List.forall_mem_append.mpr ⟨hone ?_, List.forall_mem_append.mpr ⟨hone ?_, List.forall_mem_nil _⟩⟩
      · exact (isReady_single _ _).trans (isReady_nativeFor field hlow)
      · exact (isReady_single _ _).trans (isReady_nativeFor field hhigh)
  | membership holds items =>
    refine hone (Condition.isReady_membership (fun v hv => ?_) holds)
    obtain ⟨w, hw, rfl⟩ := List.mem_map.mp hv
    exact isReady_nativeFor field ((isReady_list items).mp h w hw)
  | emptiness holds => cases holds <;> exact hone rfl

end Test

theorem Filter.isReady_queryIn (m : Mapping) (f : Filter) : (f.queryIn m).document.isReady = true := by
  refine Query.isReady_document _ fun x hx => ?_
  obtain ⟨p, _, hx⟩ := mem_fieldConditions_queryIn.mp hx
  exact Test.isReady_query p.test.isReady_operand_converted _ x hx

/-- What a filter is made into for the engine is taken as it is. -/
theorem isReady_filterQuery (m : Mapping) {filter : FilterArgument} {d : Value}
    (h : (queryOf filter m).outcome = .ok d) : d.isReady = true := by
  cases filter with
  | absent =>
    obtain rfl := Except.ok.inj h
    rfl
  | filter f =>
    rw [Filter.eq_document_of_outcome h]
    exact f.isReady_queryIn m
  | other v => exact nomatch h

end EntityStore

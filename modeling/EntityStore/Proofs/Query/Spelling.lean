import EntityStore.Proofs.Dictionary
import EntityStore.Proofs.Query.Predicate
import EntityStore.Proofs.Value.Spelling
import EntityStore.Selection
import EntityStore.SortOrder

namespace EntityStore

open Outcome (exists_of_isOk)

namespace Query

theorem isOk_spelled_documents (qs : List Query) :
    (Value.list (documents qs)).spelled.isOk = qs.all fun q => q.document.spelled.isOk := by
  rw [Value.isOk_spelled_list]
  induction qs with
  | nil => rfl
  | cons q qs ih => rw [documents, List.all_cons, List.all_cons, ih]

@[simp]
theorem isOk_spelled_all (qs : List Query) :
    (Query.all qs).document.spelled.isOk = qs.all fun q => q.document.spelled.isOk := by
  rw [← isOk_spelled_documents]
  simp [document]

@[simp]
theorem isOk_spelled_any (qs : List Query) :
    (Query.any qs).document.spelled.isOk = qs.all fun q => q.document.spelled.isOk := by
  rw [← isOk_spelled_documents]
  simp [document]

@[simp]
theorem isOk_spelled_field (name : String) (c : Condition) :
    (Query.field name c).document.spelled.isOk = c.document.spelled.isOk := by
  simp [document]

theorem isOk_spelled_everything : Query.everything.document.spelled.isOk = true := rfl

/-- The document of a query is displayed as it is spelled. -/
theorem display_document (q : Query) : q.document.display = q.document.spelled := by
  cases q <;> rfl

end Query

namespace Test

/-- What a test compares with can still be spelled in its query. -/
theorem isOk_spelled_query (field : String) {t : Test} (h : t.operand.spelled.isOk = true) :
    (t.query field).document.spelled.isOk = true := by
  have hnative {v : Value} (hv : v.spelled.isOk = true) := Value.isOk_spelled_nativeFor field hv
  cases t with
  | equality holds v =>
    have hv := hnative (v := v) h
    have hequality : (Query.field field (.equality holds (v.nativeFor field))).document.spelled.isOk = true := by
      cases holds <;> simpa [Condition.document] using hv
    cases v with
    | text s =>
      rw [query]
      split
      · exact hequality
      · cases holds <;> simp [Condition.document]
    | _ => exact hequality
  | text part holds s => cases holds <;> simp [query, Condition.document]
  | comparison c v =>
    have hv := hnative (v := v) h
    simpa [query, Condition.document] using hv
  | range holds low high =>
    have hbounds : low.spelled.isOk = true ∧ high.spelled.isOk = true := by simpa [operand] using h
    cases holds <;> simp [query, Condition.document, hnative hbounds.1, hnative hbounds.2]
  | membership holds items =>
    have hitems : ∀ v ∈ items, (v.nativeFor field).spelled.isOk = true := by
      simp only [operand, Value.isOk_spelled_list, List.all_eq_true] at h
      exact fun v hv => hnative (h v hv)
    cases holds <;> simpa [query, Condition.document] using hitems
  | emptiness holds => cases holds <;> rfl

theorem isOk_spelled_converted {t : Test} (h : t.operand.spelled.isOk = true) :
    t.converted.operand.spelled.isOk = true := by
  cases t with
  | equality _ v | comparison _ v => exact Value.isOk_spelled_converted h
  | text _ _ _ | emptiness _ => exact h
  | range _ low high =>
    have hbounds : low.spelled.isOk = true ∧ high.spelled.isOk = true := by simpa [operand] using h
    simp [converted, operand, Value.isOk_spelled_converted hbounds.1, Value.isOk_spelled_converted hbounds.2]
  | membership _ items =>
    have hitems : ∀ v ∈ items, v.converted.spelled.isOk = true := by
      simp only [operand, Value.isOk_spelled_list, List.all_eq_true] at h
      exact fun v hv => Value.isOk_spelled_converted (h v hv)
    simpa [converted, operand] using hitems

end Test

theorem Predicate.isOk_spelled_query {m : MappingArgument} {p : Predicate} {q : Query} (h : p.query m = .ok q) :
    q.document.spelled.isOk = true := by
  obtain ⟨field, _, hrest⟩ := Outcome.bind_eq_ok.mp h
  obtain ⟨t, ht, hq⟩ := Outcome.bind_eq_ok.mp hrest
  obtain rfl := Except.ok.inj hq
  rw [Test.prepared_eq] at ht
  split at ht
  · exact absurd ht (by simp)
  · obtain rfl := Except.ok.inj ht
    exact Test.isOk_spelled_query field (Test.isOk_spelled_converted p.isSpelled)

/-- Joining queries adds nothing that could not be spelled. -/
theorem ClauseGroup.isOk_spelled_combine (group : ClauseGroup) {qs : List Query}
    (h : ∀ q ∈ qs, q.document.spelled.isOk = true) : (group.combine qs).document.spelled.isOk = true := by
  have hjoin {rs : List Query} (hrs : ∀ q ∈ rs, q.document.spelled.isOk = true) :
      (group.join rs).document.spelled.isOk = true := by
    cases group <;> simpa [join] using hrs
  have hfilter {keeps : Query → Bool} : ∀ q ∈ qs.filter keeps, q.document.spelled.isOk = true :=
    fun q hq => h q (List.mem_of_mem_filter hq)
  apply hjoin
  intro q hq
  rcases List.mem_append.mp hq with hother | hpattern
  · exact hfilter q hother
  · split at hpattern
    · exact absurd hpattern List.not_mem_nil
    · rw [List.mem_singleton.mp hpattern]
      exact hjoin hfilter

theorem Clause.isOk_spelled_query {m : MappingArgument} {group : ClauseGroup} {c : Clause} {q : Query}
    (h : c.query m group = .ok (some q)) : q.document.spelled.isOk = true := by
  rw [query] at h
  split at h
  · exact absurd h (by simp)
  · obtain ⟨qs, hqs, hq⟩ := Outcome.bind_eq_ok.mp h
    obtain rfl := Option.some.inj (Except.ok.inj hq)
    exact group.isOk_spelled_combine (Outcome.mapM_forall hqs fun _ _ _ hp => Predicate.isOk_spelled_query hp)

theorem Query.isOk_spelled_ofGroups {must mustNot should : Option Query}
    (h : ∀ q, must = some q ∨ mustNot = some q ∨ should = some q → q.document.spelled.isOk = true) :
    (ofGroups must mustNot should).document.spelled.isOk = true := by
  cases must <;> cases mustNot <;> cases should <;> simp_all [ofGroups, conjoined, isOk_spelled_everything]

namespace Filter

/-- The query for a filter can be spelled, for what the filter holds can. -/
theorem isOk_spelled_query {m : MappingArgument} {f : Filter} {q : Query} (h : f.query m = .ok q) :
    q.document.spelled.isOk = true := by
  rw [query] at h
  split at h
  · exact absurd h (by simp)
  · obtain ⟨must, hmust, h⟩ := Outcome.bind_eq_ok.mp h
    obtain ⟨mustNot, hmustNot, h⟩ := Outcome.bind_eq_ok.mp h
    obtain ⟨should, hshould, h⟩ := Outcome.bind_eq_ok.mp h
    obtain rfl := Except.ok.inj h
    apply Query.isOk_spelled_ofGroups
    rintro q (rfl | rfl | rfl)
    · exact Clause.isOk_spelled_query hmust
    · exact Clause.isOk_spelled_query hmustNot
    · exact Clause.isOk_spelled_query hshould

end Filter

/-- A group of predicates can be spelled. -/
theorem Clause.exists_spelled (c : Clause) : ∃ shown, c.spelled = .ok shown := by
  have hentry (e : TestKind × List (String × List Value)) (he : e ∈ c.entries) :
      ∃ shown, (do
        let fields ← (fieldsDocument e.2).spelled
        pure (e.1.name ++ "=" ++ fields) : Except Failure String) = .ok shown := by
    obtain ⟨kind, _, rfl⟩ := List.mem_map.mp he
    have hoperands : ∀ f ∈ (c.ofKind kind).fields, ∀ p ∈ (c.ofKind kind).onField f,
        p.test.operand.spelled.isOk = true := fun _ _ p _ => p.isSpelled
    have hfields : (fieldsDocument ((c.ofKind kind).fields.map fun field =>
        (field, ((c.ofKind kind).onField field).map (·.test.operand)))).spelled.isOk = true := by
      simpa [fieldsDocument, List.all_eq_true] using hoperands
    obtain ⟨fields, hshown⟩ := exists_of_isOk hfields
    exact ⟨kind.name ++ "=" ++ fields, by rw [hshown]; rfl⟩
  obtain ⟨shown, hshown⟩ := Outcome.exists_mapM_ok hentry
  exact ⟨Value.enclosed "BaseFilter(" shown ")", by rw [spelled, hshown]; rfl⟩

/-- So can a filter. -/
theorem Filter.exists_spelled (f : Filter) : ∃ shown, f.spelled = .ok shown := by
  obtain ⟨must, hmust⟩ := f.must.exists_spelled
  obtain ⟨mustNot, hmustNot⟩ := f.mustNot.exists_spelled
  obtain ⟨should, hshould⟩ := f.should.exists_spelled
  exact ⟨_, by rw [spelled, hmust, hmustNot, hshould]; rfl⟩

namespace Filter

/-- Telling of a query cannot fail. -/
theorem outcome_queryOf (m : MappingArgument) (f : Filter) :
    (queryOf (.filter f) m).outcome = (f.query m).map fun q => q.document := by
  cases hq : f.query m with
  | error e => simp [queryOf, hq, Except.map]
  | ok q =>
    obtain ⟨shown, hshown⟩ := f.exists_spelled
    obtain ⟨compiled, hcompiled⟩ := exists_of_isOk (isOk_spelled_query hq)
    simp [queryOf, hq, hshown, hcompiled, Except.map, Reported.outcome_map]

/-- The document of a query for a filter can be displayed. -/
theorem exists_display_of_queryOf {m : MappingArgument} {f : Filter} {d : Value}
    (h : (queryOf (.filter f) m).outcome = .ok d) : ∃ shown, d.display = .ok shown := by
  rw [outcome_queryOf] at h
  cases hq : f.query m with
  | error e => exact absurd (hq ▸ h) (by simp [Except.map])
  | ok q =>
    rw [hq] at h
    obtain rfl := Except.ok.inj h
    rw [Query.display_document]
    exact exists_of_isOk (isOk_spelled_query hq)

end Filter

/-- Nothing but a text has a storage name. -/
theorem MappingArgument.exists_text_of_storageField {m : MappingArgument} {name : Value} {storage : String}
    (h : m.storageField name = .ok storage) : ∃ s, name = .text s := by
  by_contra htext
  have hnative : ¬(name == .text Mapping.nativeField) = true := fun heq => htext ⟨_, (Value.beq_text _ _).mp heq⟩
  cases m with
  | other v =>
    rw [storageField, if_neg hnative] at h
    obtain ⟨_, _, h⟩ := Outcome.bind_eq_ok.mp h
    exact absurd h (by simp)
  | mapping m =>
    rw [storageField, Mapping.storageField, if_neg hnative] at h
    · obtain ⟨_, _, h⟩ := Outcome.bind_eq_ok.mp h
      obtain ⟨_, _, h⟩ := Outcome.bind_eq_ok.mp h
      exact absurd h (by simp)
    · exact fun s hs => htext ⟨s, hs⟩

theorem Direction.isOk_spelled_sign (d : Direction) : (Value.int d.sign).spelled.isOk = true := by
  have hone : d.sign.natAbs = 1 := by cases d <;> rfl
  rw [Value.isOk_spelled_int, hone]
  exact decide_eq_true (Nat.one_lt_pow (by decide) (by decide))

namespace SortOrder

variable {m : MappingArgument} {s : SortOrder} {keys : SortKeys}

theorem exists_spelled (h : ∀ order ∈ s.orders, order.1.spelled.isOk = true) : ∃ shown, s.spelled = .ok shown := by
  have horder (order : Value × Direction) (horder : order ∈ s.orders) : ∃ shown, (do
      let name ← order.1.spelled
      pure (name ++ ": " ++ order.2.code) : Except Failure String) = .ok shown := by
    obtain ⟨name, hname⟩ := exists_of_isOk (h order horder)
    exact ⟨_, by rw [hname]; rfl⟩
  obtain ⟨shown, hshown⟩ := Outcome.exists_mapM_ok horder
  exact ⟨_, by rw [spelled, hshown]; rfl⟩

/-- A sort order that has keys is one of texts, and its keys are texts with signs. -/
theorem isOk_spelled_keys (h : s.keys m = .ok keys) :
    (∀ order ∈ s.orders, order.1.spelled.isOk = true) ∧ keys.value.spelled.isOk = true := by
  constructor
  · intro order horder
    obtain ⟨_, hkey⟩ := Outcome.mapM_ok_mem h order horder
    obtain ⟨_, hstorage, _⟩ := Outcome.bind_eq_ok.mp hkey
    obtain ⟨name, hname⟩ := MappingArgument.exists_text_of_storageField hstorage
    rw [hname, Value.isOk_spelled_text]
  · have hsign : ∀ key ∈ keys, (Value.tuple [.text key.1, .int key.2]).spelled.isOk = true := by
      refine Outcome.mapM_forall h fun order key _ hkey => ?_
      obtain ⟨_, _, hkey⟩ := Outcome.bind_eq_ok.mp hkey
      obtain rfl := Except.ok.inj hkey
      simpa using order.2.isOk_spelled_sign
    rw [SortKeys.value, Value.isOk_spelled_list, List.all_map, List.all_eq_true]
    exact hsign

/-- Telling of keys cannot fail. -/
theorem outcome_sortKeysOf (s : SortOrder) (m : MappingArgument) : (sortKeysOf (some s) m).outcome = s.keys m := by
  rw [sortKeysOf]
  split
  · next hempty =>
    rw [SortOrder.keys, List.isEmpty_iff.mp hempty]
    rfl
  · cases hkeys : s.keys m with
    | error e => simp
    | ok keys =>
      obtain ⟨hnames, hcompiled⟩ := isOk_spelled_keys hkeys
      obtain ⟨shown, hshown⟩ := exists_spelled hnames
      obtain ⟨compiled, hcompiled⟩ := exists_of_isOk hcompiled
      simp [hshown, hcompiled, Reported.outcome_map]

end SortOrder

namespace Selection

variable {m : MappingArgument} {s : Selection} {document : Document}

/-- A selection that has a document is one of texts, and the document has ones under texts. -/
theorem isOk_spelled_projection (h : s.projection m = .ok document) :
    (Value.list s.names).spelled.isOk = true ∧ (Value.plain document).spelled.isOk = true := by
  obtain ⟨fields, hfields, hdocument⟩ := Outcome.bind_eq_ok.mp h
  obtain rfl := Except.ok.inj hdocument
  constructor
  · rw [Value.isOk_spelled_list, List.all_eq_true]
    intro name hname
    obtain ⟨_, hstorage⟩ := Outcome.mapM_ok_mem hfields name hname
    obtain ⟨_, rfl⟩ := MappingArgument.exists_text_of_storageField hstorage
    rfl
  · rw [Value.isOk_spelled_document, List.all_eq_true]
    intro f hf
    have hname : f.1.spelled.isOk = true := by
      obtain ⟨entry, hentry, hname⟩ :=
        List.mem_map.mp (Dictionary.mem_of_mem_keys_ofList (List.mem_map_of_mem (f := Prod.fst) hf))
      obtain ⟨field, _, rfl⟩ := List.mem_map.mp hentry
      rw [← hname, Value.isOk_spelled_text]
    have hone : f.2.spelled.isOk = true := by
      refine Dictionary.forall_ofList (P := fun v => v.spelled.isOk = true) (fun e he => ?_) f hf
      obtain ⟨field, _, rfl⟩ := List.mem_map.mp he
      exact Direction.ascending.isOk_spelled_sign
    rw [hname, hone, Bool.and_self]

/-- Nor can telling of a selection that is not empty. -/
theorem outcome_projectionOf (h : s.isEmpty = false) (m : MappingArgument) :
    (projectionOf (some s) m).outcome = s.projection m >>= fun document => .ok (some document) := by
  rw [projectionOf, h, if_neg Bool.false_ne_true]
  cases hprojection : s.projection m with
  | error e => simp
  | ok document =>
    obtain ⟨hnames, hcompiled⟩ := isOk_spelled_projection hprojection
    obtain ⟨names, hnames⟩ := exists_of_isOk hnames
    obtain ⟨compiled, hcompiled⟩ := exists_of_isOk hcompiled
    simp [spelled, hnames, hcompiled, Reported.outcome_map]

end Selection

end EntityStore

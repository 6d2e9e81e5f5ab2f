import EntityStore.Proofs.Query.Fields
import EntityStore.Proofs.Query.Precedence
import EntityStore.Proofs.Repository.GivenIdentity
import EntityStore.Proofs.Repository.Operation
import EntityStore.Proofs.Repository.Refetching
import EntityStore.Proofs.Repository.WrittenDocument
import EntityStore.Selection
import EntityStore.SortOrder

namespace EntityStore

open Document

/-- A selection of storage names has a one under each of them. -/
theorem Document.get?_insertMany_ones {name : String} {names : List String} {d : Document}
    (h : name ∈ names ∨ Dictionary.get? (.text name) d = some (.int 1)) :
    Dictionary.get? (.text name) (Dictionary.insertMany d (names.map fun n => (.text n, .int 1))) = some (.int 1) := by
  induction names generalizing d with
  | nil => exact h.resolve_left List.not_mem_nil
  | cons n names ih =>
    refine ih (d := Dictionary.insert (.text n) (.int 1) d) ?_
    by_cases hn : n = name
    · subst hn
      exact .inr (get?_insert_text_self n _ d)
    · rw [get?_insert_text_of_ne hn]
      exact h.imp_left fun hmem => (List.mem_cons.mp hmem).resolve_left (Ne.symm hn)

section

variable {m : Mapping}

/-- The document of a selection has a one under the storage name of each of its fields. -/
theorem Selection.get?_projection {s : Selection} {document : Option Document}
    (h : (projectionOf (some s) m).outcome = .ok document) {name : Value} (hname : name ∈ s.names) {storage : String}
    (hstorage : m.storageField name = .ok storage) :
    ∃ fields, document = some fields ∧ Dictionary.get? (.text storage) fields = some (.int 1) := by
  rw [outcome_projectionOf (by simpa [isEmpty] using List.ne_nil_of_mem hname)] at h
  obtain ⟨fields, hfields, hdocument⟩ := Outcome.bind_eq_ok.mp h
  obtain rfl := Except.ok.inj hdocument
  obtain ⟨names, hnames, hfields⟩ := Outcome.bind_eq_ok.mp hfields
  obtain rfl := Except.ok.inj hfields
  exact ⟨_, rfl, get?_insertMany_ones (.inl (Outcome.mem_of_mapM_ok hnames hname hstorage))⟩

end

namespace Mapping

variable {m : Mapping} {name storage field : String}

theorem storageName_of_get? (hname : Dictionary.get? name m.fields = some storage)
    (hnative : name = nativeField → storage = nativeField) : m.storageName name = storage := by
  rw [storageName, hname]
  split
  · next heq => exact (hnative heq).symm
  · rfl

/-- A field is looked for under the name that the mapping gives it, unless it is taken for the native field. -/
theorem storageField_eq_iff (hname : Dictionary.get? name m.fields = some storage) :
    m.storageField (.text name) = .ok storage ↔ (name = nativeField → storage = nativeField) := by
  have hmaps : m.maps name = true := by simp [maps, Dictionary.contains, hname]
  rw [storageField_text, if_pos hmaps, Except.ok.injEq]
  constructor
  · rintro hstorage rfl
    rw [← hstorage, storageName, if_pos rfl]
  · exact storageName_of_get? hname

/-- The document of an entity holds under a storage name what is written of the field that has it. -/
theorem IsConsistent.get?_writtenEntries (h : m.IsConsistent field) {f : String × String} (hf : f ∈ m.fields)
    (flat : Document) : Dictionary.get? (.text f.2) (named (m.writtenEntries flat)) =
      m.writtenAs f.2 (flat.valueOf f.1) := by
  have hdistinct : (m.writtenEntries flat).Pairwise fun e g => e.1 ≠ g.1 :=
    (h.writtenEntries_apart flat).imp Path.Apart.ne
  cases hv : m.writtenAs f.2 (flat.valueOf f.1) with
  | some v =>
    have hmem : (f.2, v) ∈ m.writtenEntries flat := mem_writtenEntries.mpr ⟨f, hf, rfl, hv⟩
    exact get?_named hdistinct hmem
  | none =>
    rw [← Option.not_isSome_iff_eq_none, Option.isSome_iff_exists]
    rintro ⟨v, hget⟩
    obtain ⟨key, hkey, hmem⟩ := Dictionary.exists_mem_of_get? hget
    obtain rfl := (Value.beq_text key f.2).mp hkey
    obtain ⟨e, he, heq⟩ := List.mem_map.mp hmem
    obtain ⟨hname, rfl⟩ := Prod.mk.inj heq
    obtain ⟨g, hg, hgname, hgv⟩ := mem_writtenEntries.mp he
    obtain rfl := h.eq_of_storage hg hf (hgname.trans (Value.text.inj hname))
    exact nomatch hv.symm.trans hgv

end Mapping

namespace Repository

variable {α : Type} {r : Repository α} {name storage field : String}

/-- What a repository reads of a field is read under a storage name: the tests of filters, the keys of sort orders,
the fields of selections, and the field of which distinct values are asked for. -/
structure ReadsUnder (r : Repository α) (name storage : String) : Prop where
  filters : ∀ f d, (r.strategies.filterQuery (.filter f) r.mapping).outcome = .ok d → ∃ q : Query, d = q.document ∧
    (∀ p ∈ f.asked, p.field = name → ∀ x ∈ (p.test.converted.query storage).fieldConditions, x ∈ q.fieldConditions) ∧
    ∀ n ∈ q.fields, ∃ p ∈ f.predicates, r.mapping.storageField (.text p.field) = .ok n
  sortOrders : ∀ s d, (r.strategies.sortKeys (some s) r.mapping).outcome = .ok d → ∃ keys : SortKeys, d = keys.value ∧
    List.Forall₂ (fun order key => order.1 = .text name → key = (storage, order.2.sign)) s.orders keys
  selections : ∀ s d, .text name ∈ s.names → (r.strategies.projection (some s) r.mapping).outcome = .ok d →
    ∃ fields, d = .plain fields ∧ Dictionary.get? (.text storage) fields = some (.int 1)
  distinctValues : r.distinctField (some ⟨[.text name]⟩) = .ok storage

/-- What a repository writes of a field is written under a storage name, in documents with dotted names and with
nested fields, and in updates unless these leave it out. -/
def WritesUnder (r : Repository α) (name storage : String) : Prop :=
  ∀ entity flat, flatten entity = .ok flat → ∃ document expanded changes,
    r.storedDocument entity = .ok document ∧ expandFields document = .ok expanded ∧
    r.updateOf document = .ok (settingFields changes) ∧
    Dictionary.get? (.text storage) document = r.mapping.writtenAs storage (flat.valueOf name) ∧
    expanded.stored? storage = r.mapping.writtenAs storage (flat.valueOf name) ∧
    (r.mapping.identityField ≠ .ok storage → storage ≠ Mapping.nativeField →
      Dictionary.get? (.text storage) changes = r.mapping.writtenAs storage (flat.valueOf name))

/-- The query for an identity and the search for entities that were written look for identities under a storage name. -/
structure IdentifiesUnder (r : Repository α) (storage : String) : Prop where
  identityField : r.mapping.identityField = .ok storage
  query : ∀ entity id, entity.id = .ok id → ∃ q, identityQuery r.mapping entity = .ok q ∧ storage ∈ q.fields ∧
    ∀ n ∈ q.fields, n = Mapping.nativeField ∨ n = storage
  refetch : ∀ (plans : List PlannedWrite) f d, (r.writtenFilter plans).outcome = .ok f →
    (queryOf (.filter f) r.mapping).outcome = .ok d → plans.filterMap (·.knownId?) ≠ [] →
    ∃ q : Query, d = q.document ∧ storage ∈ q.fields ∧ ∀ n ∈ q.fields, n = Mapping.nativeField ∨ n = storage

theorem readsUnder (hstrategies : r.strategies = .standard)
    (hname : Dictionary.get? name r.mapping.fields = some storage)
    (hnative : name = Mapping.nativeField → storage = Mapping.nativeField) : r.ReadsUnder name storage := by
  have hfield : r.mapping.storageField (.text name) = .ok storage := (Mapping.storageField_eq_iff hname).mpr hnative
  refine ⟨?_, ?_, ?_, hfield⟩
  · intro f d hd
    rw [hstrategies] at hd
    have hstated := Filter.isStated_of_outcome hd
    refine ⟨_, Filter.eq_document_of_outcome hd, ?_, ?_⟩
    · rintro p hp rfl x hx
      refine Filter.mem_fieldConditions_queryIn.mpr ⟨p, hp, ?_⟩
      rwa [Predicate.queryIn, Mapping.storageName_of_get? hname hnative]
    · intro n hn
      obtain ⟨p, hp, rfl⟩ := Filter.mem_fields_queryIn.mp hn
      refine ⟨p, hp, ?_⟩
      rw [Mapping.storageField_text, if_pos (hstated p hp).maps]
  · intro s d hd
    rw [hstrategies] at hd
    obtain ⟨keys, hkeys, hd⟩ := Outcome.bind_eq_ok.mp ((Reported.outcome_bind _ _).symm.trans hd)
    refine ⟨keys, (Except.ok.inj hd).symm, (SortOrder.forall₂_keys hkeys).imp ?_⟩
    rintro ⟨_, direction⟩ ⟨n, sign⟩ ⟨hn, rfl⟩ rfl
    rw [Except.ok.inj (hfield.symm.trans hn)]
  · intro s d hs hd
    rw [hstrategies] at hd
    obtain ⟨document, hdocument, hd⟩ := Outcome.bind_eq_ok.mp ((Reported.outcome_bind _ _).symm.trans hd)
    obtain ⟨fields, rfl, hget⟩ := Selection.get?_projection hdocument hs hfield
    exact ⟨fields, (Except.ok.inj hd).symm, hget⟩

theorem writesUnder (h : r.mapping.IsConsistent field) (hstrategies : r.strategies = .standard)
    (hname : Dictionary.get? name r.mapping.fields = some storage) : r.WritesUnder name storage := by
  intro entity flat hflat
  have hmem : (name, storage) ∈ r.mapping.fields := Dictionary.mem_of_get? hname
  obtain ⟨expanded, hexpanded, hwritten⟩ := h.exists_expanded hflat
  have hget := h.get?_writtenEntries hmem flat
  refine ⟨_, expanded, _, storedDocument_eq_written h hstrategies hflat, hexpanded, updateOf_ok h.identityField_eq _,
    hget, hwritten.stores _ hmem, fun hidentity hnative => ?_⟩
  rw [Mapping.updatable, Dictionary.get?_filter, hget]
  intro e _ he
  have hfield : storage ≠ field := fun heq => hidentity (heq ▸ h.identityField_eq)
  rw [(Value.beq_text e.1 storage).mp he]
  simp [hfield, hnative]

theorem mem_fields_queryForIdentity {id : Value} {n : String} :
    n ∈ (queryForIdentity storage id).fields → n = Mapping.nativeField ∨ n = storage := by
  rw [queryForIdentity]
  split
  · exact fun hn => .inr (by simpa [Query.fields, Query.fieldConditions] using hn)
  · split
    · exact fun hn => .inl (by simpa [Query.fields, Query.fieldConditions] using hn)
    · simp [Query.fields, Query.fieldConditions, Query.fieldConditionsOf]

theorem storage_mem_fields_queryForIdentity (storage : String) (id : Value) :
    storage ∈ (queryForIdentity storage id).fields := by
  rw [queryForIdentity]
  split
  · simp [Query.fields, Query.fieldConditions]
  · split
    · simp [Query.fields, Query.fieldConditions, *]
    · simp [Query.fields, Query.fieldConditions, Query.fieldConditionsOf]

/-- The search for entities that were written names the identity if one of them had one. -/
theorem mem_predicates_writtenFilter {plans : List PlannedWrite} {f : Filter}
    (hf : (r.writtenFilter plans).outcome = .ok f) :
    (∀ p ∈ f.predicates, p.field = Mapping.nativeField ∨ p.field = r.mapping.identity) ∧
    (plans.filterMap (·.knownId?) ≠ [] → ∃ p ∈ f.predicates, p.field = r.mapping.identity) := by
  rcases writtenFilter_cases (r := r) plans with ⟨htold, hfilter⟩ | hfilter | hfilter
  · rw [hfilter] at hf
    obtain rfl := Except.ok.inj hf
    refine ⟨fun p hp => ?_, fun hknown => ?_⟩
    · have hp : p ∈ writtenClause r.mapping.identity htold := by simpa [Filter.predicates] using hp
      rcases List.mem_append.mp hp with hp | hp
      · obtain ⟨_, rfl⟩ := mem_among.mp hp
        exact .inl rfl
      · obtain ⟨_, rfl⟩ := mem_among.mp hp
        exact .inr rfl
    · refine ⟨⟨r.mapping.identity, .membership true _, isOk_spelled_ids htold⟩, ?_, rfl⟩
      exact List.mem_append_right _ (List.mem_append_right _ (mem_among.mpr ⟨hknown, rfl⟩))
  · exact (Outcome.ok_ne_error hf hfilter).elim
  · exact (Outcome.ok_ne_error hf hfilter).elim

theorem identifiesUnder (h : r.mapping.IsConsistent storage)
    (hnative : r.mapping.identity = Mapping.nativeField → storage = Mapping.nativeField) :
    r.IdentifiesUnder storage := by
  refine ⟨h.identityField_eq, fun entity id hid => ⟨_, h.identityQuery_eq hid, ?_, ?_⟩, ?_⟩
  · exact storage_mem_fields_queryForIdentity storage id
  · exact fun n hn => mem_fields_queryForIdentity hn
  · intro plans f d hf hd hknown
    obtain ⟨hnames, hidentity⟩ := mem_predicates_writtenFilter hf
    have hstorage : r.mapping.storageName r.mapping.identity = storage :=
      Mapping.storageName_of_get? h.identity hnative
    refine ⟨_, Filter.eq_document_of_outcome hd, ?_, ?_⟩
    · obtain ⟨p, hp, hfield⟩ := hidentity hknown
      exact Filter.mem_fields_queryIn.mpr ⟨p, hp, by rw [hfield, hstorage]⟩
    · intro n hn
      obtain ⟨p, hp, rfl⟩ := Filter.mem_fields_queryIn.mp hn
      rcases hnames p hp with hfield | hfield
      · exact .inl (by rw [hfield, Mapping.storageName, if_pos rfl])
      · exact .inr (by rw [hfield, hstorage])

/-- A logical field is read under the name under which it is written, unless it has the name of the native field and
is stored under another one: then it is written under that name but taken for the native field where it is read. -/
theorem readsUnder_of_writesUnder (hvalid : r.mapping.validate = .ok ()) (hstrategies : r.strategies = .standard)
    (hname : Dictionary.get? name r.mapping.fields = some storage) :
    r.WritesUnder name storage ∧
    (r.mapping.storageField (.text name) = .ok storage ↔
      (name = Mapping.nativeField → storage = Mapping.nativeField)) ∧
    ((name = Mapping.nativeField → storage = Mapping.nativeField) → r.ReadsUnder name storage ∧
      (name = r.mapping.identity → r.IdentifiesUnder storage)) := by
  obtain ⟨field, h⟩ := Mapping.isConsistent_of_validate hvalid
  refine ⟨writesUnder h hstrategies hname, Mapping.storageField_eq_iff hname, fun hnative => ?_⟩
  refine ⟨readsUnder hstrategies hname hnative, ?_⟩
  rintro rfl
  obtain rfl : field = storage := Option.some.inj (h.identity.symm.trans hname)
  exact identifiesUnder h hnative

theorem readsUnder_of_writesUnder_shop : shop.WritesUnder "number" "shopper_number" ∧
    shop.ReadsUnder "number" "shopper_number" ∧ shop.IdentifiesUnder "shopper_number" := by
  obtain ⟨hwrites, _, hagree⟩ :=
    readsUnder_of_writesUnder (r := shop) rfl rfl
      (show Dictionary.get? "number" shop.mapping.fields = some "shopper_number" from rfl)
  obtain ⟨hreads, hidentifies⟩ := hagree (by decide)
  exact ⟨hwrites, hreads, hidentifies rfl⟩

/-- Keys that have the name of the native field, but are stored under a name of their own. -/
def relabelled : Mapping := ⟨"keys", [("_id", "key"), ("name", "name")], "_id", false⟩

/-- A consistent mapping of which the identity is written under one name and looked for under another. -/
theorem storageField_identity_relabelled :
    relabelled.validate = .ok () ∧
    (¬∀ name storage, Dictionary.get? name relabelled.fields = some storage →
      relabelled.storageField (.text name) = .ok storage) ∧
    relabelled.storageField (.text relabelled.identity) ≠ relabelled.identityField := by
  refine ⟨rfl, fun hall => ?_, ?_⟩
  · exact absurd (hall "_id" "key" rfl) (by decide)
  · decide

end Repository

end EntityStore

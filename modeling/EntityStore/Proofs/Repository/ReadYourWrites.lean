import EntityStore.Proofs.Engine.Run
import EntityStore.Proofs.Repository.Planning
import EntityStore.Proofs.Repository.Refetching

namespace EntityStore

open Program

namespace Repository

/-- The writes to which entities lead: an insert of one that is new, or an update of one with an identity. -/
inductive IsPlanned (m : Mapping) (field : String) : PlannedWrite → Prop
  | insert (id : ObjectId) (expanded : Document) : IsPlanned m field (.insert id expanded)
  | upsert (e : GivenEntity m) : IsPlanned m field (e.plan field)

/-- Whether an identifier is unlike those of the entities that are written. -/
def IsFresh (id : ObjectId) (plans : List PlannedWrite) : Prop :=
  ∀ v ∈ plans.filterMap (·.freshId?) ++ plans.filterMap (·.knownId?), v.native ≠ .objectId id

variable {α : Type} {r : Repository α} {field : String}

/-- The query of the search that adding entities together ends with. -/
def refetchQuery (r : Repository α) (plans : List PlannedWrite) : Except Failure Value := do
  let f ← (r.writtenFilter plans).outcome
  (queryOf (.filter f) r.mapping).outcome

section

variable {plans : List PlannedWrite} (hplans : ∀ p ∈ plans, IsPlanned r.mapping field p)
include hplans

theorem isAtom_of_knownId {v : Value} (hv : v ∈ plans.filterMap (·.knownId?)) : v.isAtom = true := by
  obtain ⟨plan, hplan, hknown⟩ := List.mem_filterMap.mp hv
  cases hplans plan hplan with
  | insert id expanded => simp [PlannedWrite.knownId?] at hknown
  | upsert e =>
    obtain rfl := Option.some.inj hknown
    exact e.isAtom_stored

variable (h : r.mapping.IsConsistent field) {e : GivenEntity r.mapping} (he : e.plan field ∈ plans) {d : Document}
  (hstored : d.stored? field = some e.stored)
include h he hstored

/-- Where the identity is looked for in its own field, the document that stores it is selected unless it is
missed. -/
theorem isSelected_own_iff :
    ((∃ v ∈ plans.filterMap (·.freshId?), ((d.stored? Mapping.nativeField).getD .null == v) = true) ∨
      ∃ v ∈ plans.filterMap (·.knownId?), ((d.stored? field).getD .null == v.nativeFor field) = true) ↔
    ¬r.mapping.Misses e.id := by
  rw [hstored, Option.getD_some]
  constructor
  · intro hasked hmisses
    obtain ⟨rfl, s, o, hs, ho⟩ := e.stored_of_misses h hmisses
    rw [hstored, Option.getD_some, hs] at hasked
    rcases hasked with ⟨v, hv, hbeq⟩ | ⟨v, hv, hbeq⟩
    · obtain ⟨o', rfl⟩ := eq_objectId_of_freshId hv
      simpa using (Value.text_beq s _).mp hbeq
    · rw [Value.nativeFor, if_pos rfl, Value.text_beq,
        Value.native_of_isAtom (isAtom_of_knownId hplans hv)] at hbeq
      cases hv' : ObjectId.ofValue? v with
      | none =>
        rw [hv', Option.map_none, Option.getD_none] at hbeq
        rw [hbeq, ObjectId.ofValue?, ho] at hv'
        simp at hv'
      | some o' => simp [hv'] at hbeq
  · intro hfound
    refine .inr ⟨e.stored, List.mem_filterMap.mpr ⟨_, he, rfl⟩, ?_⟩
    rw [Value.nativeFor]
    split
    · next hfield =>
      rw [e.native_stored h hfield hfound]
      exact e.stored_beq_stored
    · exact e.stored_beq_stored

omit h he hstored in
/-- A fresh identifier, or a document, is not what is asked for in the native field. -/
theorem not_isSelected_native {id : ObjectId} (hfresh : IsFresh id plans) {w : Value}
    (hnative : d.stored? Mapping.nativeField = some w) (hw : w.isDocument = true ∨ w = .objectId id) :
    ¬((∃ v ∈ plans.filterMap (·.freshId?), ((d.stored? Mapping.nativeField).getD .null == v) = true) ∨
      ∃ v ∈ plans.filterMap (·.knownId?),
        ((d.stored? Mapping.nativeField).getD .null == v.nativeFor Mapping.nativeField) = true) := by
  have hno {v : Value} (hv : v ∈ plans.filterMap (·.freshId?) ++ plans.filterMap (·.knownId?))
      (hatom : v.isAtom = true) : (w == v.native) = false := by
    rcases hw with hw | rfl
    · exact Value.not_beq_of_isDocument (Value.isAtom_native_of_isAtom hatom) hw
    · rw [Bool.eq_false_iff, ne_eq, Value.objectId_beq]
      exact hfresh v hv
  rw [hnative, Option.getD_some]
  rintro (⟨v, hv, hbeq⟩ | ⟨v, hv, hbeq⟩)
  · have hnone := hno (List.mem_append_left _ hv) (isAtom_of_freshId hv)
    obtain ⟨o, rfl⟩ := eq_objectId_of_freshId hv
    exact Bool.false_ne_true (hnone.symm.trans hbeq)
  · have hnone := hno (List.mem_append_right _ hv) (isAtom_of_knownId hplans hv)
    exact Bool.false_ne_true (hnone.symm.trans hbeq)

/-- The search for what was written selects the document that stores an identity, unless that is missed, has
no name, or has the name of the native field without being stored there. There is none if one of the identities
cannot be told of. -/
theorem refetch_isSelected_iff {id : ObjectId} (hfresh : IsFresh id plans)
    (hnative : field ≠ Mapping.nativeField →
      ∃ w, d.stored? Mapping.nativeField = some w ∧ (w.isDocument = true ∨ w = .objectId id)) :
    (∃ query, r.refetchQuery plans = .ok query ∧ d.isSelected query = true) ↔
      ¬r.mapping.Misses e.id ∧ r.mapping.identity ≠ "" ∧
        (r.mapping.identity = Mapping.nativeField → field = Mapping.nativeField) ∧ AreTold plans := by
  have hknown : plans.filterMap (·.knownId?) ≠ [] :=
    List.ne_nil_of_mem (List.mem_filterMap.mpr ⟨_, he, rfl⟩)
  by_cases hname : r.mapping.identity = ""
  · have hquery : r.refetchQuery plans = .error .emptyFieldName := by
      rw [refetchQuery, writtenFilter_unnamed hknown hname]
      rfl
    simp [hquery, hname]
  by_cases htold : AreTold plans
  swap
  · have hquery : r.refetchQuery plans = .error (.tooLongToShow IntegerText.mostDigits) := by
      rw [refetchQuery, writtenFilter_untold htold hname]
      rfl
    simp [hquery, htold]
  · have hatoms := fun v => isAtom_of_knownId hplans (v := v)
    have hmaps : r.mapping.maps r.mapping.identity = true := by
      simp [Mapping.maps, Dictionary.contains, h.identity]
    have hquery : r.refetchQuery plans = .ok
        ((⟨[], [], writtenClause r.mapping.identity htold⟩ : Filter).queryIn r.mapping).document := by
      rw [refetchQuery, writtenFilter_outcome htold (.inr hname)]
      exact refetch_outcome hatoms htold hmaps
    have hselected := refetch_selects (m := r.mapping) hatoms htold (List.ne_nil_of_mem he) d
    rw [hquery]
    simp only [Except.ok.injEq, exists_eq_left', Document.isSelected, hselected, hname, ne_eq, not_false_eq_true,
      true_and]
    by_cases hidentity : r.mapping.identity = Mapping.nativeField
    · rw [Mapping.storageName, if_pos hidentity]
      by_cases hfield : field = Mapping.nativeField
      · subst hfield
        simpa [eq_true htold] using isSelected_own_iff hplans h he hstored
      · obtain ⟨w, hw, hkind⟩ := hnative hfield
        refine iff_of_false (not_isSelected_native hplans hfresh hw hkind) ?_
        simp [hidentity, hfield]
    · rw [Mapping.storageName, if_neg hidentity, h.identity, Option.getD_some]
      simpa [hidentity, eq_true htold] using isSelected_own_iff hplans h he hstored

end

section

variable (habits : EngineHabits) (c : Collection) (h : r.mapping.IsConsistent field)
  (hstrategies : r.strategies = .standard) (e : GivenEntity r.mapping)

include h

/-- An upsert that finds nothing to update inserts a document that stores the identity. -/
theorem write_stores (hnone : ∀ d ∈ c.documents, d.isSelected (.single field e.stored) = false) :
    ∃ tally after d, c.write habits (e.plan field).bulkWrite = .ok (tally, after) ∧
      after.documents = c.documents ++ [d] ∧ d.stored? field = some e.stored ∧
      (field ≠ Mapping.nativeField → ∃ w, d.stored? Mapping.nativeField = some w ∧
        (w.isDocument = true ∨ w = .objectId (habits.freshId c.issued))) := by
  obtain ⟨new, hnew, hstored, hno⟩ := h.stored?_upserted e.flat e.isAtom_stored
  obtain ⟨d, hd, hstored', hnative⟩ := c.stored?_insert habits hstored
  have habsent : c.updateFirst (.single field e.stored)
      (settingFields (Mapping.updatable field (Document.named (r.mapping.storedEntries e.flat)))) = none := by
    rw [Collection.updateFirst, List.find?_eq_none.mpr fun d hd => by simp [hnone d hd]]
    rfl
  refine ⟨⟨0, 0, 1⟩, _, d, ?_, hd, hstored', fun hfield => hnative (hno hfield)⟩
  rw [GivenEntity.plan, PlannedWrite.bulkWrite, Collection.write, habsent, hnew]

include hstrategies

theorem plan_given : Ends (Collection.engine habits) (r.plan field e.value) c (.ok (e.plan field)) c := by
  rw [plan_eq_done h hstrategies e]
  exact Ends.done _ c

omit h hstrategies in
theorem insertRecord_ends {d : Document}
    (hd : expandFields (Document.named (r.mapping.storedEntries e.flat)) = .ok d) :
    ∃ outcome, Ends (Collection.engine habits)
      (r.insertRecord e.value (Document.named (r.mapping.storedEntries e.flat))) c outcome
      (c.insert habits d).2 := by
  have hrest (id : Value) (stored : Option Value) (after : Collection) :
      ∃ outcome, Ends (Collection.engine habits) (do
        let shown ← ofExcept e.value.display
        let shownId ← ofExcept id.display
        record .info s!"Inserted entity '{shown}' into '{r.mapping.collection}' (_id: {shownId})."
        pure stored) after outcome after := by
    refine (Ends.ofExcept _ after).exists_bind fun shown => ?_
    refine (Ends.ofExcept _ after).exists_bind fun shownId => ?_
    exact ⟨_, Ends.bind (Ends.record _ _ after) (Ends.done stored after)⟩
  obtain ⟨outcome, hends⟩ := hrest (c.insert habits d).1 _ (c.insert habits d).2
  exact ⟨outcome, Ends.bind_ofExcept hd (Ends.bind (Ends.request rfl) (Ends.bind (Ends.request rfl) hends))⟩

theorem addRecord_ends {query : Query} (hquery : identityQuery r.mapping e.value = .ok query)
    (hnone : ∀ d ∈ c.documents, d.isSelected query.document = false) {d : Document}
    (hd : expandFields (Document.named (r.mapping.storedEntries e.flat)) = .ok d) :
    ∃ stored, Ends (Collection.engine habits) (r.addRecord e.value) c stored (c.insert habits d).2 := by
  obtain ⟨inserted, hinsert⟩ := insertRecord_ends habits c e hd
  have hfound : (Collection.engine habits).answer (.findOne query.document (some nativeFieldOnly)) c =
      (.ok none, c) := by
    simp only [Collection.engine, Collection.answer]
    rw [List.find?_eq_none.mpr fun d hd => by simp [hnone d hd]]
    rfl
  have hbody : Ends (Collection.engine habits) (do
      r.opened
      let id ← ofExcept e.value.id
      let existing ←
        if id.isNewIdentity then pure none
        else request (.findOne query.document (some nativeFieldOnly))
      if existing.isSome then
        r.updateRecord e.value query (Document.named (r.mapping.storedEntries e.flat))
      else r.insertRecord e.value (Document.named (r.mapping.storedEntries e.flat)))
      c inserted (c.insert habits d).2 := by
    refine Ends.bind (Ends.opened _ _ c) (Ends.bind_ofExcept e.tells ?_)
    simp only [Value.isNewIdentity_of_given e.given]
    exact Ends.bind (Ends.request hfound) hinsert
  obtain ⟨stored, hduring⟩ := hbody.exists_during (doing "adding entity" e.value)
  refine ⟨stored, Ends.bind_ofExcept (requireIdentity_of_id e.tells) ?_⟩
  refine Ends.bind_ofExcept (storedDocument_given h hstrategies e) ?_
  exact Ends.bind_ofExcept hquery hduring

/-- Adding an entity whose identity is not found inserts a document that stores the identity. -/
theorem add_stores {query : Query} (hquery : identityQuery r.mapping e.value = .ok query)
    (hnone : ∀ d ∈ c.documents, d.isSelected query.document = false) :
    ∃ outcome after d, Ends (Collection.engine habits) (r.add e.value) c outcome after ∧
      after.documents = c.documents ++ [d] ∧ d.stored? field = some e.stored := by
  obtain ⟨new, hnew, hstored⟩ := h.stored?_expanded e
  obtain ⟨d, hd, hstored', _⟩ := c.stored?_insert habits hstored
  obtain ⟨stored, hrecord⟩ := addRecord_ends habits c h hstrategies e hquery hnone hnew
  obtain ⟨outcome, hadd⟩ := hrecord.exists_bind fun a => ⟨_, Ends.ofExcept (r.restoredOption a) _⟩
  exact ⟨outcome, _, d, hadd, hd, hstored'⟩

end

/-- What is written for an entity is found by its identity unless that is missed. What is written together
with others is found by the search for them if, besides, the identity has a name and is stored where the
name leads, and if all the identities that are looked for can be told of. -/
theorem written_isSelected_iff (hvalid : r.mapping.validate = .ok ()) (hstrategies : r.strategies = .standard)
    (habits : EngineHabits) (e : GivenEntity r.mapping) :
    ∃ field query, r.mapping.identityField = .ok field ∧
      (∀ v, v.id = .ok e.id → identityQuery r.mapping v = .ok query) ∧
      (∀ c : Collection, (∀ d ∈ c.documents, d.isSelected query.document = false) →
        ∃ outcome after d, Ends (Collection.engine habits) (r.add e.value) c outcome after ∧
          after.documents = c.documents ++ [d] ∧
          (d.isSelected query.document = true ↔ ¬r.mapping.Misses e.id)) ∧
      (∀ c, Ends (Collection.engine habits) (r.plan field e.value) c (.ok (e.plan field)) c) ∧
      ∀ c : Collection, (∀ d ∈ c.documents, d.isSelected (.single field e.stored) = false) →
        ∃ tally after d, c.write habits (e.plan field).bulkWrite = .ok (tally, after) ∧
          after.documents = c.documents ++ [d] ∧
          (d.isSelected query.document = true ↔ ¬r.mapping.Misses e.id) ∧
          ∀ plans, e.plan field ∈ plans → (∀ p ∈ plans, IsPlanned r.mapping field p) →
            IsFresh (habits.freshId c.issued) plans →
            ((∃ refetch, r.refetchQuery plans = .ok refetch ∧ d.isSelected refetch = true) ↔
              ¬r.mapping.Misses e.id ∧ r.mapping.identity ≠ "" ∧
                (r.mapping.identity = Mapping.nativeField → field = Mapping.nativeField) ∧ AreTold plans) := by
  obtain ⟨field, h⟩ := Mapping.isConsistent_of_validate hvalid
  have hquery {v : Value} (hv : v.id = .ok e.id) := h.identityQuery_eq hv
  refine ⟨field, queryForIdentity field e.id, h.identityField_eq, fun v hv => hquery hv, ?_, ?_, ?_⟩
  · intro c hnone
    obtain ⟨outcome, after, d, hadd, hdocuments, hstored⟩ :=
      add_stores habits c h hstrategies e (hquery e.tells) hnone
    exact ⟨outcome, after, d, hadd, hdocuments, h.isSelected_queryForIdentity e.given e.holds hstored⟩
  · exact fun c => plan_given habits c h hstrategies e
  · intro c hnone
    obtain ⟨tally, after, d, hwrite, hdocuments, hstored, hnative⟩ := write_stores habits c h e hnone
    refine ⟨tally, after, d, hwrite, hdocuments,
      h.isSelected_queryForIdentity e.given e.holds hstored, fun plans he hplans hfresh => ?_⟩
    exact refetch_isSelected_iff hplans h he hstored hfresh hnative

/-- Keys that are stored in the native field, and are given with their names. -/
def keys : Mapping := ⟨"keys", [("key", "_id"), ("name", "name")], "key", false⟩

def keyring : Repository Unit := ⟨"db", keys, none, .standard⟩

def key (s : String) (hs : s ≠ "") : GivenEntity keys where
  value := .record .data [("key", .text s), ("name", .text "Ken")] (.byAttribute "key")
  id := .text s
  flat := [(.text "key", .text s), (.text "name", .text "Ken")]
  tells := rfl
  flattens := rfl
  given := by simpa [Value.isGiven] using hs
  holds := by simp [Document.valueOf, keys, Dictionary.get?]

def nativeKey : ObjectId := ⟨[0x01, 0x23, 0x45, 0x67, 0x89, 0xab, 0xcd, 0xef, 0x01, 0x23, 0x45, 0x67]⟩

/-- A name is found again, unless it is the literal of a native identifier. -/
theorem written_isSelected_iff_key :
    ∃ ken literal, identityQuery keys (.entityId (.text "ken")) = .ok ken ∧
      identityQuery keys (.entityId (.text "0123456789abcdef01234567")) = .ok literal ∧
      (∃ outcome after d, Ends (Collection.engine .plain) (keyring.add (key "ken" (by decide)).value)
        ⟨[], [], 0⟩ outcome after ∧ after.documents = [d] ∧ d.isSelected ken.document = true) ∧
      ∃ outcome after d, Ends (Collection.engine .plain)
        (keyring.add (key "0123456789abcdef01234567" (by decide)).value) ⟨[], [], 0⟩ outcome after ∧
        after.documents = [d] ∧ d.isSelected literal.document = false := by
  have written := written_isSelected_iff (r := keyring) rfl rfl .plain
  obtain ⟨_, ken, _, hken, hadded, _⟩ := written (key "ken" (by decide))
  obtain ⟨_, literal, _, hliteral, hmissed, _⟩ := written (key "0123456789abcdef01234567" (by decide))
  have hfound : ¬keys.Misses (.text "ken") := by
    rintro ⟨_, _, s, o, hs, ho⟩
    have hnone : ObjectId.ofText? "ken" = none := rfl
    rw [← Value.text.inj hs, hnone] at ho
    simp at ho
  have hmisses : keys.Misses (.text "0123456789abcdef01234567") := by
    have hliteral : nativeKey.display = "0123456789abcdef01234567" := by decide
    exact ⟨rfl, rfl, _, nativeKey, rfl, hliteral ▸ ObjectId.ofText?_display rfl⟩
  obtain ⟨outcome, after, d, hends, hdocuments, hselected⟩ := hadded ⟨[], [], 0⟩ (by simp)
  obtain ⟨outcome', after', d', hends', hdocuments', hselected'⟩ := hmissed ⟨[], [], 0⟩ (by simp)
  refine ⟨ken, literal, hken _ rfl, hliteral _ rfl, ⟨outcome, after, d, hends, hdocuments, hselected.mpr hfound⟩,
    outcome', after', d', hends', hdocuments', ?_⟩
  rw [Bool.eq_false_iff]
  exact fun h => hselected'.mp h hmisses

end Repository

end EntityStore

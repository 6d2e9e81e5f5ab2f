import EntityStore.Proofs.Engine.Asking
import EntityStore.Proofs.Engine.Dialogue
import EntityStore.Proofs.Repository.Finding
import EntityStore.Proofs.Repository.NativeIdentity
import EntityStore.Proofs.Repository.Operation
import EntityStore.Proofs.Repository.Planning
import EntityStore.Proofs.Repository.ReadYourWrites
import Mathlib.Data.List.Nodup

namespace EntityStore

open Document Program
open Mapping (nativeField)

/-- The document that a write inserts. -/
def BulkWrite.inserted? : BulkWrite → Option Document
  | .insert d => some d
  | .upsert _ _ => none

namespace AddedEntity

open Repository (PlannedWrite)

variable {m : Mapping} {field : String} {es : List (AddedEntity m)} {plans : List PlannedWrite}

/-- The documents of the entities that have an identity. -/
def knownDocuments (es : List (AddedEntity m)) : List Document :=
  (es.filter fun e => !e.isNew).map (·.document)

theorem filterMap_knownDocument? (h : List.Forall₂ (IsWrittenAs field) es plans) :
    plans.filterMap (·.knownDocument?) = knownDocuments es := by
  induction h with
  | nil => rfl
  | cons hwritten _ ih =>
    cases hwritten with
    | insert o expanded hnew _ _ => simpa [knownDocuments, hnew, PlannedWrite.knownDocument?] using ih
    | upsert v hknown _ => simpa [knownDocuments, hknown, PlannedWrite.knownDocument?] using ih

theorem not_isEmpty_knownDocuments (es : List (AddedEntity m)) :
    (!(knownDocuments es).isEmpty) = es.any fun e => !e.isNew := by
  induction es with
  | nil => rfl
  | cons e es ih => cases hnew : e.isNew <;> simp_all [knownDocuments]

theorem isAtom_of_knownId (hm : m.IsConsistent field) (h : List.Forall₂ (IsWrittenAs field) es plans) :
    ∀ v ∈ plans.filterMap (·.knownId?), v.isAtom = true := by
  induction h with
  | nil => exact List.forall_mem_nil _
  | @cons e plan es plans hwritten _ ih =>
    cases hwritten with
    | insert o expanded _ _ _ => exact ih
    | upsert v hknown hv =>
      rw [get?_document hm e hknown] at hv
      refine List.forall_mem_cons.mpr ⟨?_, ih⟩
      rw [← Option.some.inj hv]
      exact (e.given hknown).isAtom_stored

/-- The single write of an entity. A new one is inserted with an identifier in the native field. Any other is updated
where its identity is found, and inserted if that is found nowhere; its fields are set, but for the identity and the
native field. -/
inductive IsWrittenBy (field : String) (e : AddedEntity m) : BulkWrite → Prop
  | insert (o : ObjectId) (d : Document) (hnew : e.isNew = true)
      (hd : expandFields (Dictionary.insert (.text nativeField) (.objectId o) e.document) = .ok d)
      (hid : Dictionary.get? (.text nativeField) d = some (.objectId o)) : IsWrittenBy field e (.insert d)
  | upsert (v : Value) (hknown : e.isNew = false) (hv : Dictionary.get? (.text field) e.document = some v) :
      IsWrittenBy field e (.upsert [(.text field, v)] [(.text "$set",
        .plain (e.document.filter fun f => !(f.1 == .text field) && !(f.1 == .text nativeField)))])

theorem isWrittenBy_bulkWrite (h : List.Forall₂ (IsWrittenAs field) es plans) :
    List.Forall₂ (IsWrittenBy field) es (plans.map (·.bulkWrite)) := by
  induction h with
  | nil => exact .nil
  | cons hwritten _ ih =>
    refine .cons ?_ ih
    cases hwritten with
    | insert o d hnew hd hid => exact .insert o d hnew hd hid
    | upsert v hknown hv => exact .upsert v hknown hv

/-- The identifiers of the documents that are inserted are the fresh ones. -/
theorem inserted_native (h : List.Forall₂ (IsWrittenAs field) es plans) :
    ((plans.map (·.bulkWrite)).filterMap (·.inserted?)).map (Dictionary.get? (.text nativeField)) =
      (plans.filterMap (·.freshId?)).map some := by
  induction h with
  | nil => rfl
  | cons hwritten _ ih =>
    cases hwritten with
    | insert o d hnew hd hid => simpa [PlannedWrite.bulkWrite, BulkWrite.inserted?, PlannedWrite.freshId?, hid] using ih
    | upsert v hknown hv => simpa [PlannedWrite.bulkWrite, BulkWrite.inserted?, PlannedWrite.freshId?] using ih

/-- The identities that the documents of an entity hold, of those that have one. -/
theorem knownIds_eq (h : List.Forall₂ (IsWrittenAs field) es plans) :
    (plans.filterMap (·.knownId?)).map some = (knownDocuments es).map (Dictionary.get? (.text field)) := by
  induction h with
  | nil => rfl
  | cons hwritten _ ih =>
    cases hwritten with
    | insert o d hnew hd hid => simpa [knownDocuments, hnew, PlannedWrite.knownId?] using ih
    | upsert v hknown hv => simpa [knownDocuments, hknown, PlannedWrite.knownId?, hv] using ih

/-- What is sought of a known identity is what is stored of it, unless a given one is stored in the native field. -/
theorem nativeFor_knownId (hm : m.IsConsistent field)
    (hplace : field = nativeField → m.generatesIds = true) (h : List.Forall₂ (IsWrittenAs field) es plans) :
    ∀ v ∈ plans.filterMap (·.knownId?), v.nativeFor field = v := by
  induction h with
  | nil => exact List.forall_mem_nil _
  | @cons e plan es plans hwritten _ ih =>
    cases hwritten with
    | insert o d _ _ _ => exact ih
    | upsert v hknown hv =>
      rw [get?_document hm e hknown] at hv
      obtain rfl := Option.some.inj hv
      refine List.forall_mem_cons.mpr ⟨?_, ih⟩
      rw [Value.nativeFor]
      split
      · next hfield =>
        refine (e.given hknown).native_stored hm hfield ?_
        rintro ⟨_, hgiven, _⟩
        rw [hplace hfield] at hgiven
        exact Bool.noConfusion hgiven
      · rfl

theorem exists_expanded {α : Type} {r : Repository α} (hm : r.mapping.IsConsistent field)
    (hstrategies : r.strategies = .standard) (es : List (AddedEntity r.mapping)) :
    ∃ documents, (knownDocuments es).mapM expandFields = .ok documents := by
  cases hdocuments : (knownDocuments es).mapM expandFields with
  | ok documents => exact ⟨documents, rfl⟩
  | error e =>
    obtain ⟨d, hd, hfails⟩ := Outcome.exists_mem_of_mapM_error hdocuments
    obtain ⟨entity, _, rfl⟩ := List.mem_map.mp hd
    have hstored : r.storedDocument entity.value = .ok entity.document :=
      Repository.storedDocument_of_flatten hstrategies entity.flattens
    obtain ⟨expanded, hexpanded⟩ := Repository.exists_expandFields hm hstrategies hstored
    exact (Outcome.ok_ne_error hexpanded hfails).elim

end AddedEntity

namespace Repository

variable {α σ : Type} {engine : Engine σ} {r : Repository α} {field : String}

/-- A search asks for the documents of its query. -/
theorem conversation_findBy (hstrategies : r.strategies = .standard) {f : Filter} {query : Value}
    (hquery : (queryOf (.filter f) r.mapping).outcome = .ok query) {state : σ}
    (h : ∀ x ∈ (r.findBy (.filter f) none none).conversation engine state, x.isAnswered = true) :
    ((r.findBy (.filter f) none none).conversation engine state).map (·.request) =
      [.find query .null, .fetch] := by
  have hsearch : (r.findBy (.filter f) none none).conversation engine state = (do
      request (.find query .null)
      let records ← request .fetch
      let shown ← ofExcept query.display
      record .debug s!"Found {records.length} document(s) for query {shown}"
      ofExcept (records.mapM r.restored)).conversation engine state := by
    rw [findBy, findRecords]
    simp only [bind_assoc]
    rw [conversation_bind_ofReported ((outcome_filterQuery hstrategies _).trans hquery),
      conversation_bind_ofReported (outcome_sortKeys_none hstrategies),
      conversation_bind_ofReported (outcome_projection_none hstrategies), conversation_bind_during]
    simp only [openCursor, bind_assoc]
    rfl
  rw [hsearch] at h ⊢
  obtain ⟨_, opened, _, _, hfind, hanswers⟩ := conversation_bind_request h
  obtain ⟨records, fetched, _, _, hfetch, _⟩ := conversation_bind_request hanswers
  have hsilent : (do
      let shown ← ofExcept query.display
      record .debug s!"Found {records.length} document(s) for query {shown}"
      ofExcept (records.mapM r.restored)).conversation engine fetched = [] := by
    refine Asks.silent ?_ fetched
    exact Asks.bind_ofExcept fun _ _ => Asks.bind (Asks.record _ _) fun _ => Asks.ofExcept _
  rw [hfind, hfetch, hsilent]
  rfl

/-- Whether the known entities are inserted by themselves after a bulk of writes. -/
def fallsBack (known : List Document) (counts : BulkCounts) : Bool :=
  !known.isEmpty && counts.matched == .int 0 && counts.upserted == .int 0

/-- What is done once a bulk of writes was carried out. -/
def finishBulk (r : Repository α) (known : List Document) (counts : BulkCounts) : Program Unit := do
  let inserted ← ofExcept counts.inserted.display
  let matched ← ofExcept counts.matched.display
  let upserted ← ofExcept counts.upserted.display
  record .info (s!"Bulk write on '{r.mapping.collection}': {inserted} inserted, "
    ++ s!"{matched} matched, {upserted} upserted.")
  if fallsBack known counts then insertKnown known

theorem writeAll_eq (r : Repository α) (plans : List PlannedWrite) :
    r.writeAll plans = during (.ok s!"adding {plans.length} entities") (do
      r.opened
      request (.bulkWrite (plans.map (·.bulkWrite)) false) >>= r.finishBulk (plans.filterMap (·.knownDocument?))) :=
  rfl

section

variable {known documents : List Document} (hdocuments : known.mapM expandFields = .ok documents) {state : σ}
include hdocuments

theorem says_insertKnown (h : ∀ x ∈ (insertKnown known).conversation engine state, x.isAnswered = true) :
    ∃ reply after, Says engine (insertKnown known) state [⟨.insertMany documents, .ok reply⟩] (.ok ()) after := by
  have hasked : (insertKnown known).conversation engine state =
      (request (.insertMany documents) >>= pure).conversation engine state := by
    have hexpands : (insertKnown known).conversation engine state = (do
        let expanded ← ofExcept (known.mapM expandFields)
        request (.insertMany expanded)).conversation engine state := rfl
    rw [hexpands, conversation_bind_ofExcept hdocuments, bind_pure]
  obtain ⟨reply, after, hanswer, _⟩ := conversation_bind_request (hasked ▸ h)
  exact ⟨reply, after, Says.bind_record (Says.bind_ofExcept hdocuments (Says.request hanswer))⟩

/-- What follows a bulk of writes is the insert of the known entities, or nothing. -/
theorem says_finishBulk {counts : BulkCounts} (hinserted : counts.inserted.display.isOk = true)
    (hmatched : counts.matched.display.isOk = true) (hupserted : counts.upserted.display.isOk = true)
    (h : ∀ x ∈ (r.finishBulk known counts).conversation engine state, x.isAnswered = true) :
    ∃ rest after, Says engine (r.finishBulk known counts) state rest (.ok ()) after ∧
      rest.map (·.request) = if fallsBack known counts then [.insertMany documents] else [] := by
  obtain ⟨inserted, hinserted⟩ := Outcome.exists_of_isOk hinserted
  obtain ⟨matched, hmatched⟩ := Outcome.exists_of_isOk hmatched
  obtain ⟨upserted, hupserted⟩ := Outcome.exists_of_isOk hupserted
  let last : Program Unit := if fallsBack known counts then insertKnown known else pure ()
  have hconversation : (r.finishBulk known counts).conversation engine state = last.conversation engine state := by
    rw [finishBulk, conversation_bind_ofExcept hinserted, conversation_bind_ofExcept hmatched,
      conversation_bind_ofExcept hupserted]
    rfl
  have hsays {rest : List Exchange} {after : σ} (hlast : Says engine last state rest (.ok ()) after) :
      Says engine (r.finishBulk known counts) state rest (.ok ()) after := by
    apply Says.bind_ofExcept hinserted
    apply Says.bind_ofExcept hmatched
    apply Says.bind_ofExcept hupserted
    exact Says.bind_record hlast
  rw [hconversation] at h
  cases hfalls : fallsBack known counts with
  | false =>
    have hnothing : last = pure () := by
      simp only [last, hfalls]
      rfl
    refine ⟨[], state, hsays ?_, rfl⟩
    rw [hnothing]
    exact Says.done () state
  | true =>
    have hinsert : last = insertKnown known := by
      simp only [last, hfalls]
      rfl
    rw [hinsert] at h
    obtain ⟨reply, after, hsaid⟩ := says_insertKnown hdocuments h
    exact ⟨_, after, hsays (hinsert ▸ hsaid), rfl⟩

end

/-- The bulk of writes is followed by an insert of the known entities if none was matched or upserted. -/
theorem says_writeAll {plans : List PlannedWrite} {documents : List Document}
    (hdocuments : (plans.filterMap (·.knownDocument?)).mapM expandFields = .ok documents) {state : σ}
    (h : ∀ x ∈ (r.writeAll plans).conversation engine state, x.isAnswered = true) :
    ∃ counts rest after, Says engine (r.writeAll plans) state
        (⟨.bulkWrite (plans.map (·.bulkWrite)) false, .ok counts⟩ :: rest) (.ok ()) after ∧
      rest.map (·.request) = if !(plans.filterMap (·.knownDocument?)).isEmpty && counts.matched == .int 0 &&
        counts.upserted == .int 0 then [.insertMany documents] else [] := by
  rw [writeAll_eq, conversation_during] at h
  obtain ⟨counts, written, hwrite, hshown, _, hrest⟩ :=
    conversation_bind_request (r := .bulkWrite (plans.map (·.bulkWrite)) false)
      (f := r.finishBulk (plans.filterMap (·.knownDocument?))) h
  simp only [Request.isShown, Bool.and_eq_true] at hshown
  obtain ⟨rest, after, hsays, hrequests⟩ := says_finishBulk hdocuments hshown.1.1 hshown.1.2 hshown.2 hrest
  refine ⟨counts, rest, after, ⟨?_, ?_⟩, hrequests⟩
  · rw [writeAll_eq]
    exact (Ends.bind (Ends.opened _ _ _) ((Says.request hwrite).bind hsays).toEnds).during _
  · rw [writeAll_eq, conversation_during]
    exact ((Says.request hwrite).bind hsays).conversation

/-- The search that adding entities together ends with. -/
def refetch (r : Repository α) (plans : List PlannedWrite) : Program (List (Found α)) := do
  let filter ← ofReported (r.writtenFilter plans)
  r.findBy (.filter filter) none none

theorem addAll_values (h : r.mapping.IsConsistent field) {values : List Value} (hne : values ≠ [])
    (htells : ∀ v ∈ values, ∃ id, v.id = .ok id) :
    r.addAll (.list values) = (do
      let plans ← r.planAll field values
      r.writeAll plans
      r.refetch plans) := by
  have hids : values.forM requireIdentity = .ok () := by
    refine Outcome.forM_ok fun v hv => ?_
    obtain ⟨id, hid⟩ := htells v hv
    exact requireIdentity_of_id hid
  have helements : (Value.list values).elements = .ok values := rfl
  have hnonempty : values.isEmpty = false := by simpa using hne
  rw [addAll, helements]
  change (ofExcept (values.forM requireIdentity) >>= _) = _
  rw [hids]
  change (if values.isEmpty = true then _ else _) = _
  rw [hnonempty, h.identityField_eq]
  rfl

theorem addAll_eq (h : r.mapping.IsConsistent field) {es : List (AddedEntity r.mapping)} (hne : es ≠ []) :
    r.addAll (.list (es.map (·.value))) = (do
      let plans ← r.planAll field (es.map (·.value))
      r.writeAll plans
      r.refetch plans) := by
  apply addAll_values h (by simpa using hne)
  intro v hv
  obtain ⟨e, _, rfl⟩ := List.mem_map.mp hv
  exact ⟨e.id, e.tells⟩

/-- If an identity cannot be told of, the search for what was written fails before it is made. -/
theorem refetch_untold {plans : List PlannedWrite} (huntold : ¬AreTold plans) (hname : r.mapping.identity ≠ "")
    (state : σ) : Ends engine (r.refetch plans) state (.error (.tooLongToShow IntegerText.mostDigits)) state ∧
      (r.refetch plans).conversation engine state = [] := by
  have hfilter : Says engine (ofReported (r.writtenFilter plans)) state [] _ state := Says.ofReported _ state
  rw [writtenFilter_untold huntold hname] at hfilter
  exact ⟨hfilter.bind_error.toEnds, hfilter.bind_error.conversation⟩

section

variable (h : r.mapping.IsConsistent field) (hname : r.mapping.identity ≠ "") {es : List (AddedEntity r.mapping)}
  {plans : List PlannedWrite} (hwritten : List.Forall₂ (AddedEntity.IsWrittenAs field) es plans)
include h hname hwritten

/-- Where the identities can be told of, there is a search for all that is written. -/
theorem exists_refetch (hother : r.mapping.identity ≠ nativeField)
    (hplace : field = nativeField → r.mapping.generatesIds = true) (hne : es ≠ []) (htold : AreTold plans) :
    ∃ f, (r.writtenFilter plans).outcome = .ok f ∧ (queryOf (.filter f) r.mapping).outcome =
      .ok (searchDocument field (plans.filterMap (·.freshId?)) (plans.filterMap (·.knownId?))) := by
  have hatoms := AddedEntity.isAtom_of_knownId h hwritten
  have hmaps : r.mapping.maps r.mapping.identity = true := by
    simp [Mapping.maps, Dictionary.contains, h.identity]
  have hstorage : r.mapping.storageName r.mapping.identity = field := by
    rw [Mapping.storageName, if_neg hother, h.identity, Option.getD_some]
  have hplans : plans ≠ [] := by
    rintro rfl
    exact hne (List.forall₂_nil_right_iff.mp hwritten)
  have hids : (plans.filterMap (·.knownId?)).map (fun v => v.nativeFor field) = plans.filterMap (·.knownId?) := by
    conv_rhs => rw [← List.map_id (plans.filterMap (·.knownId?))]
    exact List.map_congr_left (AddedEntity.nativeFor_knownId h hplace hwritten)
  refine ⟨_, writtenFilter_outcome htold (.inr hname), ?_⟩
  rw [refetch_outcome hatoms htold hmaps, document_written hatoms hplans hother htold, hstorage, hids]

theorem conversation_refetch (hstrategies : r.strategies = .standard) (hother : r.mapping.identity ≠ nativeField)
    (hplace : field = nativeField → r.mapping.generatesIds = true) (hne : es ≠ []) (htold : AreTold plans) {state : σ}
    (hanswers : ∀ x ∈ (r.refetch plans).conversation engine state, x.isAnswered = true) :
    ((r.refetch plans).conversation engine state).map (·.request) =
      [.find (searchDocument field (plans.filterMap (·.freshId?)) (plans.filterMap (·.knownId?))) .null, .fetch] := by
  obtain ⟨f, hfilter, hquery⟩ := exists_refetch h hname hwritten hother hplace hne htold
  rw [refetch, conversation_bind_ofReported hfilter] at hanswers ⊢
  exact conversation_findBy hstrategies hquery hanswers

end

/-- Where a field is stored inside the native one, a new entity cannot be added, and nothing is asked. -/
theorem addAll_nested (h : r.mapping.IsConsistent field) (hstrategies : r.strategies = .standard)
    (hnests : r.mapping.NestsNative) {es : List (AddedEntity r.mapping)} (hnew : ∃ e ∈ es, e.isNew = true)
    (s : Session σ) :
    ((r.addAll (.list (es.map (·.value)))).run engine s).outcome = .error (.fieldSetTwice nativeField) ∧
      ((r.addAll (.list (es.map (·.value)))).run engine s).requests = [] := by
  have hne : es ≠ [] := by
    rintro rfl
    simp at hnew
  obtain ⟨after, hplans⟩ := planAll_fails h hstrategies engine hnests hnew s.engine
  rw [addAll_eq h hne]
  refine ⟨hplans.bind_error.outcome s.isOpen, ?_⟩
  rw [requests_run, conversation_bind_error hplans, (asks_planAll field (es.map (·.value))).silent]
  rfl

/-- Adding nothing asks nothing. Otherwise there is one bulk of writes, in any order: one for every entity, the new
ones under fresh identifiers. If some are not new and none of these was found or inserted, they are inserted by
themselves. The last request is the search for what was written, by the identifiers and the identities.
There are two exceptions. Where a field is stored inside the native one, a new entity cannot be written, and nothing is
asked. And an identity that cannot be told of makes the search fail, once all is written. -/
theorem addAll_requests (hvalid : r.mapping.validate = .ok ()) (hstrategies : r.strategies = .standard)
    (hname : r.mapping.identity ≠ "") (hother : r.mapping.identity ≠ nativeField)
    (hplace : r.mapping.identityField = .ok nativeField → r.mapping.generatesIds = true)
    (es : List (AddedEntity r.mapping)) (engine : Engine σ) (s : Session σ)
    (hanswers : ∀ x ∈ (r.addAll (.list (es.map (·.value)))).conversation engine s.engine, x.isAnswered = true)
    (hfresh : (engine.identifiers (es.countP (·.isNew)) s.engine).Nodup) :
    let t := (r.addAll (.list (es.map (·.value)))).run engine s
    (es = [] → t.requests = []) ∧
    (r.mapping.NestsNative → (∃ e ∈ es, e.isNew = true) →
      t.outcome = .error (.fieldSetTwice nativeField) ∧ t.requests = []) ∧
    (es ≠ [] → (r.mapping.NestsNative → ∀ e ∈ es, e.isNew = false) → ∃ field writes fresh known documents counts,
      r.mapping.identityField = .ok field ∧
      List.Forall₂ (AddedEntity.IsWrittenBy field) es writes ∧
      (writes.filterMap (·.inserted?)).map (Dictionary.get? (.text nativeField)) = fresh.map some ∧
      fresh = (engine.identifiers (es.countP (·.isNew)) s.engine).map .objectId ∧ fresh.Nodup ∧
      known.map some = (AddedEntity.knownDocuments es).map (Dictionary.get? (.text field)) ∧
      (AddedEntity.knownDocuments es).mapM expandFields = .ok documents ∧
      ((r.addAll (.list (es.map (·.value)))).conversation engine s.engine).head? =
        some ⟨.bulkWrite writes false, .ok counts⟩ ∧
      let written := .bulkWrite writes false ::
        if es.any (fun e => !e.isNew) && counts.matched == .int 0 && counts.upserted == .int 0
        then [.insertMany documents] else []
      ((∀ v ∈ known, v.spelled.isOk = true) →
        t.requests = written ++ [.find (searchDocument field fresh known) .null, .fetch]) ∧
      (¬(∀ v ∈ known, v.spelled.isOk = true) →
        t.outcome = .error (.tooLongToShow IntegerText.mostDigits) ∧ t.requests = written)) := by
  obtain ⟨field, h⟩ := Mapping.isConsistent_of_validate hvalid
  refine ⟨?_, fun hnests hnew => addAll_nested h hstrategies hnests hnew s, fun hne hfits => ?_⟩
  · rintro rfl
    rfl
  obtain ⟨plans, planned, hprepares, hwritten, hids⟩ := planAll_prepares h hstrategies engine es hfits s.engine
  have hknown := AddedEntity.filterMap_knownDocument? hwritten
  obtain ⟨documents, hdocuments⟩ := AddedEntity.exists_expanded h hstrategies es
  rw [addAll_eq h hne, conversation_bind hprepares.toEnds, hprepares.isSilent, List.nil_append] at hanswers
  obtain ⟨counts, rest, added, hwrites, hrest⟩ := says_writeAll (hknown ▸ hdocuments) fun x hx =>
    hanswers x ((conversation_prefix_bind _ _ _).subset hx)
  have hconversation : (r.addAll (.list (es.map (·.value)))).conversation engine s.engine =
      ⟨.bulkWrite (plans.map (·.bulkWrite)) false, .ok counts⟩ :: rest ++
        (r.refetch plans).conversation engine added := by
    rw [addAll_eq h hne, conversation_bind hprepares.toEnds, hprepares.isSilent, List.nil_append,
      conversation_bind hwrites.toEnds, hwrites.conversation]
  rw [conversation_bind hwrites.toEnds, List.forall_mem_append] at hanswers
  rw [hknown, AddedEntity.not_isEmpty_knownDocuments] at hrest
  refine ⟨field, plans.map (·.bulkWrite), plans.filterMap (·.freshId?), plans.filterMap (·.knownId?), documents, counts,
    h.identityField_eq, AddedEntity.isWrittenBy_bulkWrite hwritten, AddedEntity.inserted_native hwritten, hids, ?_,
    AddedEntity.knownIds_eq hwritten, hdocuments, ?_, fun htold => ?_, fun huntold => ?_⟩
  · rw [hids]
    exact List.Nodup.map (fun _ _ ho => Value.objectId.inj ho) hfresh
  · exact congrArg List.head? hconversation
  · have hfield : field = nativeField → r.mapping.generatesIds = true := fun hfield =>
      hplace (h.identityField_eq.trans (congrArg Except.ok hfield))
    have hsearch := conversation_refetch h hname hwritten hstrategies hother hfield hne htold hanswers.2
    rw [requests_run, hconversation, List.map_append, List.map_cons, hrest, hsearch]
  · have hsearch : Ends engine (r.refetch plans) added _ added := (refetch_untold huntold hname added).1
    have hfails : (r.refetch plans).conversation engine added = [] := (refetch_untold huntold hname added).2
    constructor
    · rw [addAll_eq h hne]
      exact (hprepares.toEnds.bind (hwrites.toEnds.bind hsearch)).outcome s.isOpen
    · rw [requests_run, hconversation, hfails, List.append_nil, List.map_cons, hrest]

/-- A shopper who has no number yet. -/
def newcomer (name : String) : AddedEntity shoppers where
  value := .record .data [("number", .null), ("name", .text name)] (.byAttribute "number")
  id := .null
  flat := [(.text "number", .null), (.text "name", .text name)]
  tells := rfl
  flattens := rfl
  isUsual := .inl rfl
  holds := rfl

def regular (number : Int) (name : String) : AddedEntity shoppers where
  value := .record .data [("number", .int number), ("name", .text name)] (.byAttribute "number")
  id := .int number
  flat := [(.text "number", .int number), (.text "name", .text name)]
  tells := rfl
  flattens := rfl
  isUsual := .inr rfl
  holds := by simp [Document.valueOf, shoppers, Dictionary.get?]

/-- Two new shoppers, and one who comes twice. -/
def crowd : List (AddedEntity shoppers) := [newcomer "Ken", regular 7 "Ada", newcomer "Joy", regular 7 "Ida"]

theorem addAll_requests_crowd :
    let session : Session Script := ⟨.start [.value (.plain []), .value .null, .value (.list [])] 0, false⟩
    let p := shop.addAll (.list (crowd.map (·.value)))
    (∀ x ∈ p.conversation scriptedEngine session.engine, x.isAnswered = true) ∧
      (scriptedEngine.identifiers 2 session.engine).Nodup ∧
      ∃ writes fresh documents, ∃ counts : BulkCounts,
        List.Forall₂ (AddedEntity.IsWrittenBy "shopper_number") crowd writes ∧ fresh.Nodup ∧
        (p.run scriptedEngine session).requests = .bulkWrite writes false ::
          (if crowd.any (fun e => !e.isNew) && counts.matched == .int 0 && counts.upserted == .int 0
            then [.insertMany documents] else []) ++
          [.find (searchDocument "shopper_number" fresh [.int 7, .int 7]) .null, .fetch] := by
  intro session p
  have hanswers : ∀ x ∈ p.conversation scriptedEngine session.engine, x.isAnswered = true := by
    rw [← List.all_eq_true]
    decide +kernel
  have hfresh : (scriptedEngine.identifiers 2 session.engine).Nodup := Script.nodup_identifiers (by decide)
  have hfield : shoppers.identityField = .ok "shopper_number" := rfl
  have hapart : shoppers.NestsNative → ∀ e ∈ crowd, e.isNew = false := by
    rintro ⟨f, hf, hstart, hne⟩
    have hstarts : ∀ f ∈ shoppers.fields, Path.start f.2 ≠ nativeField := by decide
    exact absurd hstart (hstarts f hf)
  have hplace : shoppers.identityField = .ok nativeField → shoppers.generatesIds = true := by
    intro hnative
    exact absurd (Except.ok.inj (hfield.symm.trans hnative)) (by decide)
  obtain ⟨_, _, hadded⟩ := addAll_requests (r := shop) rfl rfl (by decide) (by decide) hplace crowd scriptedEngine
    session hanswers hfresh
  obtain ⟨field, writes, fresh, known, documents, counts, hidentity, hwrites, _, _, hnodup, hknown, _, _, hrequests,
    _⟩ := hadded (List.cons_ne_nil _ _) hapart
  obtain rfl := Except.ok.inj (hfield.symm.trans hidentity)
  have hsevens : known = [.int 7, .int 7] :=
    List.map_injective_iff.mpr (Option.some_injective Value) (hknown.trans rfl)
  subst hsevens
  have htold : ∀ v ∈ [Value.int 7, .int 7], v.spelled.isOk = true := by decide
  exact ⟨hanswers, hfresh, writes, fresh, documents, counts, hwrites, hnodup, hrequests htold⟩

end Repository

end EntityStore

import EntityStore.Proofs.Repository.Batch
import EntityStore.Proofs.Repository.WrittenDocument

namespace EntityStore

open Document
open Mapping (nativeField)

theorem Value.isLeaf_of_isNewIdentity {v : Value} (h : v.isNewIdentity = true) : Flatten.IsLeaf v := by
  cases v with
  | document kind fields => simp [isNewIdentity] at h
  | _ => trivial

namespace Mapping

variable {m : Mapping} {field : String} {entity : Value} {flat d : Document}

/-- Nothing that stands for an identity is written into the native field, but by mappings of identities that are
given: whatever they store there is written as it is. -/
theorem IsWritten.native_iff (hd : m.IsWritten flat d) :
    (∃ v, Dictionary.get? (.text nativeField) d = some v ∧ v.isNewIdentity = true) ↔
      m.generatesIds = false ∧ ∃ f ∈ m.fields, f.2 = nativeField ∧ (flat.valueOf f.1).isNewIdentity = true := by
  constructor
  · rintro ⟨v, hv, hnew⟩
    have hleaf : ([.text nativeField], v) ∈ Flatten.fieldLeaves [] d := by
      apply Flatten.mem_fieldLeaves_of_get? hv
      rw [Flatten.leaves_of_isLeaf (Value.isLeaf_of_isNewIdentity hnew)]
      exact List.mem_singleton.mpr rfl
    obtain ⟨f, hf, hkeys, hwritten⟩ := (hd.leaves _).mp hleaf
    have hname : f.2 = nativeField := by
      have hpath : Path.ofText f.2 = Path.ofText nativeField := by
        have hinjective : Function.Injective Value.text := fun _ _ h => Value.text.inj h
        exact List.map_injective_iff.mpr hinjective hkeys.symm
      exact Path.ofText_injective hpath
    rw [hname] at hwritten
    obtain ⟨hgiven, hsame⟩ := writtenAs_of_isNewIdentity hwritten hnew
    exact ⟨hgiven, f, hf, hname, hsame ▸ hnew⟩
  · rintro ⟨hgiven, f, hf, hname, hnew⟩
    refine ⟨flat.valueOf f.1, ?_, hnew⟩
    rw [← stored?_nativeField, ← hname, hd.stores f hf, writtenAs_of_given hgiven]

end Mapping

/-- An entity whose identity is still to be given, and the flat document that holds the same. -/
structure NewEntity (m : Mapping) where
  value : Value
  id : Value
  flat : Document
  tells : value.id = .ok id
  flattens : flatten value = .ok flat
  isNew : id.isNewIdentity = true
  holds : (flat.valueOf m.identity == id) = true

/-- A new entity as one of several. -/
def NewEntity.added {m : Mapping} (e : NewEntity m) : AddedEntity m where
  value := e.value
  id := e.id
  flat := e.flat
  tells := e.tells
  flattens := e.flattens
  isUsual := .inl e.isNew
  holds := e.holds

namespace Repository

open Program

variable {α σ : Type} {engine : Engine σ} {r : Repository α} {field : String}

theorem head_writeAll {β : Type} (plans : List PlannedWrite) (f : Unit → Program β) (state : σ) :
    ((r.writeAll plans >>= f).conversation engine state).head?.map (·.request) =
      some (.bulkWrite (plans.map (·.bulkWrite)) false) := by
  rw [writeAll, conversation_bind_during]
  rfl

section

variable (h : r.mapping.IsConsistent field)
include h

/-- The documents that are inserted together are those that would be inserted alone, but for the native field. -/
theorem exists_bulk (hnests : ¬r.mapping.NestsNative) {single : NewEntity r.mapping → Document}
    (hsingle : ∀ e, expandFields (named (r.mapping.writtenEntries e.flat)) = .ok (single e))
    {es : List (NewEntity r.mapping)} {plans : List PlannedWrite}
    (hwritten : List.Forall₂ (AddedEntity.IsWrittenAs field) (es.map NewEntity.added) plans) :
    ∃ bulk : List Document, plans.map (·.bulkWrite) = bulk.map .insert ∧
      bulk.map withoutNative = es.map (fun e => (single e).withoutNative) ∧
      bulk.map (Dictionary.get? (.text nativeField)) = (plans.filterMap (·.freshId?)).map some := by
  induction es generalizing plans with
  | nil =>
    obtain rfl := List.forall₂_nil_left_iff.mp hwritten
    exact ⟨[], rfl, rfl, rfl⟩
  | cons e es ih =>
    obtain ⟨plan, rest, hfirst, hrest, rfl⟩ := List.forall₂_cons_left_iff.mp hwritten
    obtain ⟨bulk, hwrites, houtside, hnative⟩ := ih hrest
    cases hfirst with
    | insert o d _ hexpanded _ =>
      obtain ⟨fresh, hfresh, hsame, hid⟩ := h.exists_expanded_fresh hnests e.flattens (hsingle e) o
      have hd : d = fresh := by
        rw [AddedEntity.document, h.withNativeIdentity_eq] at hexpanded
        exact Except.ok.inj (hexpanded.symm.trans hfresh)
      refine ⟨d :: bulk, ?_, ?_, ?_⟩
      · rw [List.map_cons, List.map_cons, hwrites]
        rfl
      · rw [List.map_cons, List.map_cons, houtside, hd, hsame]
      · rw [List.map_cons, hnative, hd, hid]
        rfl
    | upsert v hknown _ =>
      have hnew : e.added.isNew = true := e.isNew
      rw [hnew] at hknown
      exact absurd hknown.symm Bool.false_ne_true

variable (hstrategies : r.strategies = .standard)
include hstrategies

/-- A new entity is inserted before anything else is asked. -/
theorem head_add (e : NewEntity r.mapping) {d : Document}
    (hd : expandFields (named (r.mapping.writtenEntries e.flat)) = .ok d) (s : Session σ) :
    ((r.add e.value).run engine s).requests.head? = some (.insertOne d) := by
  have hdocument := storedDocument_eq_written h hstrategies e.flattens
  have hquery := h.identityQuery_eq e.tells
  rw [requests_run, add, addRecord]
  simp only [bind_assoc]
  rw [conversation_bind_ofExcept (requireIdentity_of_id e.tells), conversation_bind_ofExcept hdocument,
    conversation_bind_ofExcept hquery, conversation_bind_during, e.tells]
  simp only [insertRecord, hd, bind_assoc]
  change List.head? (List.map _ (conversation engine ((if e.id.isNewIdentity = true then _ else _) >>= _) _)) = _
  rw [if_pos e.isNew]
  rfl

/-- Where fields are stored inside the native field, adding new entities together fails, and nothing is asked. -/
theorem addAll_fails (hnests : r.mapping.NestsNative) {es : List (NewEntity r.mapping)} (hne : es ≠ [])
    (s : Session σ) :
    ((r.addAll (.list (es.map (·.value)))).run engine s).outcome = .error (.fieldSetTwice nativeField) ∧
      ((r.addAll (.list (es.map (·.value)))).run engine s).requests = [] := by
  have hvalues : (es.map NewEntity.added).map (·.value) = es.map (·.value) := by simp [NewEntity.added]
  obtain ⟨e, es, rfl⟩ := List.exists_cons_of_ne_nil hne
  have hnew : ∃ a ∈ (e :: es).map NewEntity.added, a.isNew = true := ⟨e.added, List.mem_cons_self, e.isNew⟩
  rw [← hvalues]
  exact addAll_nested h hstrategies hnests hnew s

theorem addAll_inserts (hnests : ¬r.mapping.NestsNative) {single : NewEntity r.mapping → Document}
    (hsingle : ∀ e, expandFields (named (r.mapping.writtenEntries e.flat)) = .ok (single e))
    {es : List (NewEntity r.mapping)} (hne : es ≠ []) (s : Session σ) :
    ∃ bulk : List Document,
      ((r.addAll (.list (es.map (·.value)))).run engine s).requests.head? =
        some (.bulkWrite (bulk.map .insert) false) ∧
      bulk.map withoutNative = es.map (fun e => (single e).withoutNative) ∧
      bulk.map (Dictionary.get? (.text nativeField)) =
        (engine.identifiers es.length s.engine).map fun o => some (.objectId o) := by
  let added := es.map NewEntity.added
  have hvalues : added.map (·.value) = es.map (·.value) := by simp [added, NewEntity.added]
  have hcount : added.countP (·.isNew) = es.length := by
    have hall : added.countP (·.isNew) = added.length := by
      apply List.countP_eq_length.mpr
      intro a ha
      obtain ⟨e, _, rfl⟩ := List.mem_map.mp ha
      exact e.isNew
    rw [hall, List.length_map]
  obtain ⟨plans, after, hprepares, hwritten, hids⟩ :=
    planAll_prepares h hstrategies engine added (fun h => absurd h hnests) s.engine
  obtain ⟨bulk, hwrites, houtside, hnative⟩ := exists_bulk h hnests hsingle hwritten
  refine ⟨bulk, ?_, houtside, ?_⟩
  · have hadded : added ≠ [] := by simpa [added] using hne
    rw [← hvalues, addAll_eq h hadded, requests_run, conversation_bind hprepares.toEnds, hprepares.isSilent,
      List.nil_append, List.head?_map, head_writeAll, hwrites]
  · rw [hnative, hids, hcount, List.map_map]
    rfl

end

/-- New entities are inserted alike, alone and together, with an identifier of their own where they are together.
There are two exceptions. Where fields are stored inside the native one, adding them together fails before anything
is asked. And what a mapping of given identities stores in the native field itself is inserted alone as it is,
even if it stands for no identity. -/
theorem newEntities_inserted (hvalid : r.mapping.validate = .ok ()) (hstrategies : r.strategies = .standard)
    {es : List (NewEntity r.mapping)} (hne : es ≠ []) (engine : Engine σ) (s : Session σ) :
    ∃ single : NewEntity r.mapping → Document,
      (∀ e, ((r.add e.value).run engine s).requests.head? = some (.insertOne (single e)) ∧
        ((∃ v, Dictionary.get? (.text nativeField) (single e) = some v ∧ v.isNewIdentity = true) ↔
          r.mapping.generatesIds = false ∧
            ∃ f ∈ r.mapping.fields, f.2 = nativeField ∧ (e.flat.valueOf f.1).isNewIdentity = true)) ∧
      let t := (r.addAll (.list (es.map (·.value)))).run engine s
      (r.mapping.NestsNative → t.outcome = .error (.fieldSetTwice nativeField) ∧ t.requests = []) ∧
      (¬r.mapping.NestsNative → ∃ bulk : List Document,
        t.requests.head? = some (.bulkWrite (bulk.map .insert) false) ∧
        bulk.map withoutNative = es.map (fun e => (single e).withoutNative) ∧
        bulk.map (Dictionary.get? (.text nativeField)) =
          (engine.identifiers es.length s.engine).map fun o => some (.objectId o)) := by
  obtain ⟨field, h⟩ := Mapping.isConsistent_of_validate hvalid
  have hexpanded (e : NewEntity r.mapping) := h.exists_expanded e.flattens
  choose single hsingle hwritten using hexpanded
  refine ⟨single, ?_, ?_, ?_⟩
  · intro e
    exact ⟨head_add h hstrategies e (hsingle e) s, (hwritten e).native_iff⟩
  · intro hnests
    exact addAll_fails h hstrategies hnests hne s
  · intro hnests
    exact addAll_inserts h hstrategies hnests hsingle hne s

/-- Parts, of which the kind is stored inside the native field. -/
def parts : Mapping := ⟨"parts", [("key", "key"), ("kind", "_id.kind")], "key", false⟩

def warehouse : Repository Unit := ⟨"warehouse", parts, none, .standard⟩

def unkeyed (kind : Int) : NewEntity parts where
  value := .record .data [("key", .null), ("kind", .int kind)] (.byAttribute "key")
  id := .null
  flat := named [("key", .null), ("kind", .int kind)]
  tells := rfl
  flattens := rfl
  isNew := rfl
  holds := rfl

/-- A new part can be added alone, but not together with others. -/
theorem newEntities_inserted_parts :
    let session : Session Script := ⟨.start [] 0, false⟩
    let t := (warehouse.addAll (.list [(unkeyed 1).value])).run scriptedEngine session
    (∃ d, ((warehouse.add (unkeyed 1).value).run scriptedEngine session).requests.head? = some (.insertOne d)) ∧
      t.outcome = .error (.fieldSetTwice nativeField) ∧ t.requests = [] := by
  intro session t
  have hvalid : warehouse.mapping.validate = .ok () := by rfl
  obtain ⟨single, hsingle, hfails, _⟩ := newEntities_inserted (r := warehouse) hvalid rfl
    (List.cons_ne_nil (unkeyed 1) []) scriptedEngine session
  have hnests : parts.NestsNative := ⟨("kind", "_id.kind"), by decide, by decide, by decide⟩
  exact ⟨⟨single (unkeyed 1), (hsingle (unkeyed 1)).1⟩, hfails hnests⟩

end Repository

end EntityStore

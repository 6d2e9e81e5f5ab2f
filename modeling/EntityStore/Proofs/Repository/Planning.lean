import EntityStore.Proofs.Engine.Asking
import EntityStore.Proofs.Engine.Identifiers
import EntityStore.Proofs.Repository.GivenEntity
import EntityStore.Proofs.Repository.StoredDocument
import EntityStore.Proofs.Repository.WrittenDocument
import Mathlib.Data.List.Forall2

namespace EntityStore

open Document

/-- An entity that is added together with others. It tells an identity that is new or given, and the flat document
of the entity holds the same. -/
structure AddedEntity (m : Mapping) where
  value : Value
  id : Value
  flat : Document
  tells : value.id = .ok id
  flattens : flatten value = .ok flat
  isUsual : id.isNewIdentity = true ∨ id.isGiven = true
  holds : (flat.valueOf m.identity == id) = true

namespace AddedEntity

open Repository (PlannedWrite)

variable {m : Mapping} {field : String}

def isNew (e : AddedEntity m) : Bool := e.id.isNewIdentity

/-- The document that stores an entity, with dotted names. -/
def document (e : AddedEntity m) : Document := m.withNativeIdentity (named (m.entries e.flat))

/-- The entity with the identity that is given with it. -/
def given (e : AddedEntity m) (h : e.isNew = false) : GivenEntity m where
  value := e.value
  id := e.id
  flat := e.flat
  tells := e.tells
  flattens := e.flattens
  given := e.isUsual.resolve_left (by simpa [isNew] using h)
  holds := e.holds

/-- A new entity is inserted under a fresh identifier, and any other updated under the identity of its document. -/
inductive IsWrittenAs (field : String) (e : AddedEntity m) : PlannedWrite → Prop
  | insert (o : ObjectId) (expanded : Document) (hnew : e.isNew = true)
      (hexpanded : expandFields (Dictionary.insert (.text Mapping.nativeField) (.objectId o) e.document) =
        .ok expanded)
      (hid : Dictionary.get? (.text Mapping.nativeField) expanded = some (.objectId o)) :
      IsWrittenAs field e (.insert o expanded)
  | upsert (v : Value) (hknown : e.isNew = false) (hv : Dictionary.get? (.text field) e.document = some v) :
      IsWrittenAs field e
        (.upsert field v e.document (settingFields (Mapping.updatable field e.document)))

theorem document_eq_named (h : m.IsConsistent field) (e : AddedEntity m) (hknown : e.isNew = false) :
    e.document = named (m.storedEntries e.flat) :=
  h.withNativeIdentity_entries (e.given hknown)

theorem get?_document (h : m.IsConsistent field) (e : AddedEntity m) (hknown : e.isNew = false) :
    Dictionary.get? (.text field) e.document = some (e.given hknown).stored := by
  rw [document_eq_named h e hknown]
  exact h.get?_storedEntries e.flat

end AddedEntity

/-- A program that succeeds without a request. -/
structure Program.Prepares {σ α : Type} (engine : Engine σ) (p : Program α) (before : σ) (a : α) (after : σ) : Prop
    extends Program.Ends engine p before (.ok a) after where
  isSilent : p.conversation engine before = []

namespace Program.Prepares

variable {σ α β : Type} {engine : Engine σ} {p : Program α} {f : α → Program β} {before between after : σ}
  {a : α} {b : β}

theorem done (a : α) (state : σ) : Prepares engine (.done a) state a state := ⟨Ends.done a state, rfl⟩

theorem freshId {next : ObjectId → Program α}
    (h : Prepares engine (next (engine.freshId before).1) (engine.freshId before).2 a after) :
    Prepares engine (.freshId next) before a after :=
  ⟨⟨fun isOpen => h.outcome isOpen, fun isOpen => h.state isOpen⟩, h.isSilent⟩

theorem bind (hp : Prepares engine p before a between) (hf : Prepares engine (f a) between b after) :
    Prepares engine (p >>= f) before b after := by
  refine ⟨hp.toEnds.bind hf.toEnds, ?_⟩
  rw [conversation_bind hp.toEnds, hp.isSilent, hf.isSilent]
  rfl

end Program.Prepares

namespace Repository

variable {α σ : Type} {engine : Engine σ} {r : Repository α} {field : String} (h : r.mapping.IsConsistent field)
  (hstrategies : r.strategies = .standard)

include hstrategies

theorem plan_new (e : AddedEntity r.mapping) (hnew : e.isNew = true) :
    r.plan field e.value = .freshId fun o => (do
      let d ← Program.ofExcept (expandFields
        (Dictionary.insert (.text Mapping.nativeField) (.objectId o) e.document))
      pure (.insert o d)) := by
  rw [plan, storedDocument_of_flatten hstrategies e.flattens, e.tells]
  change (if e.isNew = true then _ else _) = _
  rw [if_pos hnew]
  rfl

include h

theorem storedDocument_given (e : GivenEntity r.mapping) :
    r.storedDocument e.value = .ok (named (r.mapping.storedEntries e.flat)) := by
  rw [storedDocument_of_flatten hstrategies e.flattens, h.withNativeIdentity_entries]

theorem plan_eq_done (e : GivenEntity r.mapping) : r.plan field e.value = .done (e.plan field) := by
  have hnew := Value.isNewIdentity_of_given e.given
  rw [plan, storedDocument_given h hstrategies e, e.tells]
  change (if e.id.isNewIdentity = true then _ else _) = _
  rw [if_neg (by simp [hnew])]
  simp only [h.get?_storedEntries, updateOf_ok h.identityField_eq]
  rfl

theorem plan_known (e : AddedEntity r.mapping) (hknown : e.isNew = false) :
    r.plan field e.value = .done (.upsert field (e.given hknown).stored e.document
      (settingFields (Mapping.updatable field e.document))) := by
  rw [AddedEntity.document_eq_named h e hknown]
  exact plan_eq_done h hstrategies (e.given hknown)

/-- Where no field is stored inside the native one, a new entity is planned for under any identifier. -/
theorem exists_plan_new (hnests : ¬r.mapping.NestsNative) (e : AddedEntity r.mapping) (hnew : e.isNew = true) :
    ∃ expanded : ObjectId → Document,
      (∀ o, expandFields (Dictionary.insert (.text Mapping.nativeField) (.objectId o) e.document) =
        .ok (expanded o)) ∧
      (∀ o, Dictionary.get? (.text Mapping.nativeField) (expanded o) = some (.objectId o)) ∧
      r.plan field e.value = .freshId fun o => .done (.insert o (expanded o)) := by
  have hfresh (o : ObjectId) : ∃ d,
      expandFields (Dictionary.insert (.text Mapping.nativeField) (.objectId o) e.document) = .ok d ∧
        Dictionary.get? (.text Mapping.nativeField) d = some (.objectId o) := by
    obtain ⟨single, hsingle, _⟩ := h.exists_expanded e.flattens
    obtain ⟨d, hd, _, hid⟩ := h.exists_expanded_fresh hnests e.flattens hsingle o
    rw [AddedEntity.document, h.withNativeIdentity_eq]
    exact ⟨d, hd, hid⟩
  choose expanded hexpanded hid using hfresh
  refine ⟨expanded, hexpanded, hid, ?_⟩
  rw [plan_new hstrategies e hnew]
  refine congrArg Program.freshId (funext fun o => ?_)
  rw [hexpanded]
  rfl

/-- Every entity is planned for, and no identifier is used twice or left out. -/
theorem planAll_prepares (engine : Engine σ) (es : List (AddedEntity r.mapping))
    (hfits : r.mapping.NestsNative → ∀ e ∈ es, e.isNew = false) (before : σ) :
    ∃ plans after, Program.Prepares engine (r.planAll field (es.map (·.value))) before plans after ∧
      List.Forall₂ (AddedEntity.IsWrittenAs field) es plans ∧
      plans.filterMap (·.freshId?) = (engine.identifiers (es.countP (·.isNew)) before).map .objectId := by
  induction es generalizing before with
  | nil => exact ⟨[], before, .done _ _, .nil, rfl⟩
  | cons e es ih =>
    have ih := ih fun hnests e he => hfits hnests e (List.mem_cons_of_mem _ he)
    cases hnew : e.isNew with
    | true =>
      have hnests : ¬r.mapping.NestsNative := fun hnests => by simpa [hnew] using hfits hnests e List.mem_cons_self
      obtain ⟨expanded, hexpanded, hid, hplan⟩ := exists_plan_new h hstrategies hnests e hnew
      obtain ⟨plans, after, hrest, hwritten, hfresh⟩ := ih (engine.freshId before).2
      refine ⟨.insert (engine.freshId before).1 (expanded (engine.freshId before).1) :: plans, after, ?_, ?_, ?_⟩
      · rw [List.map_cons, planAll, hplan]
        exact .freshId (hrest.bind (.done _ _))
      · exact .cons (.insert _ _ hnew (hexpanded _) (hid _)) hwritten
      · rw [List.countP_cons_of_pos hnew, Engine.identifiers, List.map_cons, ← hfresh]
        rfl
    | false =>
      obtain ⟨plans, after, hrest, hwritten, hfresh⟩ := ih before
      refine ⟨_ :: plans, after, ?_, .cons (.upsert _ hnew (AddedEntity.get?_document h e hnew)) hwritten, ?_⟩
      · rw [List.map_cons, planAll, plan_known h hstrategies e hnew]
        exact hrest.bind (.done _ _)
      · rw [List.countP_cons_of_neg (by simp [hnew]), ← hfresh]
        rfl

/-- Where a field is stored inside the native one, no new entity can be planned for. -/
theorem planAll_fails (engine : Engine σ) (hnests : r.mapping.NestsNative) {es : List (AddedEntity r.mapping)}
    (hnew : ∃ e ∈ es, e.isNew = true) (before : σ) :
    ∃ after, Program.Ends engine (r.planAll field (es.map (·.value))) before
      (.error (.fieldSetTwice Mapping.nativeField)) after := by
  induction es with
  | nil => simp at hnew
  | cons e es ih =>
    rw [List.map_cons, planAll]
    cases hfirst : e.isNew with
    | true =>
      refine ⟨(engine.freshId before).2, Program.Ends.bind_error ?_⟩
      rw [plan_new hstrategies e hfirst, AddedEntity.document, h.withNativeIdentity_eq]
      simp only [h.expandFields_fresh_error hnests e.flattens]
      exact ⟨fun _ => rfl, fun _ => rfl⟩
    | false =>
      obtain ⟨after, hrest⟩ := ih (by simpa [hfirst] using hnew)
      rw [plan_known h hstrategies e hfirst]
      exact ⟨after, (Program.Ends.done _ before).bind hrest.bind_error⟩

omit h hstrategies in
/-- Nothing is asked for a plan. -/
theorem asks_planAll {allowed : Request → Prop} (name : String) (entities : List Value) :
    (r.planAll name entities).Asks allowed := by
  have hplan (entity : Value) : (r.plan name entity).Asks allowed := by
    refine Program.Asks.bind_ofExcept fun document _ => Program.Asks.bind_ofExcept fun id _ => ?_
    split
    · exact fun fresh => Program.Asks.bind_ofExcept fun _ _ => trivial
    · split
      · exact trivial
      · exact Program.Asks.bind_ofExcept fun _ _ => trivial
  induction entities with
  | nil => exact trivial
  | cons entity rest ih => exact Program.Asks.bind (hplan entity) fun _ => Program.Asks.bind ih fun _ => trivial

end Repository

end EntityStore

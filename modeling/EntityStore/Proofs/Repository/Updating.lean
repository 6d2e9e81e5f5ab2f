import EntityStore.Proofs.Engine.Collection
import EntityStore.Proofs.Repository.WrittenDocument

namespace EntityStore

open Document

namespace Mapping

variable {m : Mapping} {field : String}

/-- Whether a document holds what was inserted wherever a mapped name starts. It may hold further fields, and
a native identifier that the engine gave to it. -/
def IsInserted (m : Mapping) (inserted d : Document) : Prop :=
  ∀ f ∈ m.fields, f.2 ≠ nativeField →
    Dictionary.get? (.text (Path.start f.2)) d = Dictionary.get? (.text (Path.start f.2)) inserted

/-- What an update with an entity makes of a document: `wanted` is what an insert of the entity would store. -/
structure IsUpdated (m : Mapping) (field : String) (wanted old new : Document) : Prop where
  stores : ∀ f ∈ m.fields, f.2 ≠ field → f.2 ≠ nativeField → new.stored? f.2 = wanted.stored? f.2
  identity : new.stored? field = old.stored? field
  native : ¬m.NestsNative → Dictionary.get? (.text nativeField) new = Dictionary.get? (.text nativeField) old
  others : ∀ top, (∀ f ∈ m.fields, Path.start f.2 ≠ top) →
    Dictionary.get? (.text top) new = Dictionary.get? (.text top) old

/-- The written fields of a flat document that an update sets. -/
def updatedEntries (m : Mapping) (field : String) (flat : Document) : List (String × Value) :=
  (m.writtenEntries flat).filter fun e => !(e.1 == field) && !(e.1 == nativeField)

theorem mem_updatedEntries {flat : Document} {e : String × Value} : e ∈ m.updatedEntries field flat ↔
    ∃ f ∈ m.fields, f.2 ≠ field ∧ f.2 ≠ nativeField ∧ (f.2, flat.valueOf f.1) = e := by
  rw [updatedEntries, List.mem_filter, mem_writtenEntries]
  constructor
  · rintro ⟨⟨f, hf, hname, hv⟩, hne⟩
    have hapart : f.2 ≠ field ∧ f.2 ≠ nativeField := by simpa [hname] using hne
    rw [writtenAs_of_ne hapart.2] at hv
    exact ⟨f, hf, hapart.1, hapart.2, Prod.ext hname (Option.some.inj hv)⟩
  · rintro ⟨f, hf, hfield, hnative, rfl⟩
    exact ⟨⟨f, hf, rfl, writtenAs_of_ne hnative _⟩, by simp [hfield, hnative]⟩

namespace IsConsistent

variable (h : m.IsConsistent field)
include h

/-- Nothing in a document that was inserted stands in the way of an update. -/
theorem exists_isUpdated {oldFlat newFlat inserted wanted d : Document} (hinserted : m.IsWritten oldFlat inserted)
    (hwanted : m.IsWritten newFlat wanted) (hd : m.IsInserted inserted d) :
    ∃ e, setFields (named (m.updatedEntries field newFlat)) d = some e ∧ m.IsUpdated field wanted d e := by
  have hapart : (m.updatedEntries field newFlat).Pairwise fun e f => Path.Apart e.1 f.1 :=
    (h.writtenEntries_apart newFlat).filter _
  have haccepts : ∀ e ∈ m.updatedEntries field newFlat, d.Accepts e.1 := by
    intro e he
    obtain ⟨f, hf, _, hnative, rfl⟩ := mem_updatedEntries.mp he
    exact (accepts_congr (hd f hf hnative)).mpr (hinserted.accepts f hf hnative)
  obtain ⟨e, he, hset, hkept⟩ := setFields_named hapart haccepts
  refine ⟨e, he, ?_, ?_, ?_, ?_⟩
  · intro f hf hfield hnative
    have hmem : (f.2, newFlat.valueOf f.1) ∈ m.updatedEntries field newFlat :=
      mem_updatedEntries.mpr ⟨f, hf, hfield, hnative, rfl⟩
    rw [(hset _ hmem).1, hwanted.stores f hf, writtenAs_of_ne hnative]
  · have hothers : ∀ g ∈ m.updatedEntries field newFlat, Path.Apart g.1 field := by
      intro g hg
      obtain ⟨f, hf, hfield, _, rfl⟩ := mem_updatedEntries.mp hg
      exact h.apart f hf _ h.mem_fields hfield
    exact (hkept field hothers).1
  · intro hnests
    apply get?_setFields_of_ne _ he
    intro g hg hstart
    obtain ⟨f, hf, _, hnative, rfl⟩ := mem_updatedEntries.mp hg
    exact hnests ⟨f, hf, hstart, hnative⟩
  · intro top htop
    apply get?_setFields_of_ne _ he
    intro g hg
    obtain ⟨f, hf, _, _, rfl⟩ := mem_updatedEntries.mp hg
    exact htop f hf

end IsConsistent

end Mapping

namespace Repository

variable {α : Type} {r : Repository α}

/-- Updates agree with inserts. Whatever further fields a document has that was inserted for one entity, the update
that sets the fields of another succeeds on it. -/
theorem update_agrees_with_insert (hvalid : r.mapping.validate = .ok ()) (hstrategies : r.strategies = .standard)
    {old new : Value} {oldFlat newFlat : Document} (hold : flatten old = .ok oldFlat)
    (hnew : flatten new = .ok newFlat) :
    ∃ field oldDocument inserted newDocument wanted update,
      r.mapping.identityField = .ok field ∧
      r.storedDocument old = .ok oldDocument ∧ expandFields oldDocument = .ok inserted ∧
      r.storedDocument new = .ok newDocument ∧ expandFields newDocument = .ok wanted ∧
      r.updateOf newDocument = .ok update ∧
      ∀ d, r.mapping.IsInserted inserted d →
        ∃ e, d.updated? update = some e ∧ r.mapping.IsUpdated field wanted d e := by
  obtain ⟨field, h⟩ := Mapping.isConsistent_of_validate hvalid
  obtain ⟨inserted, hinserted, hwritten⟩ := h.exists_expanded hold
  obtain ⟨wanted, hwanted, hrewritten⟩ := h.exists_expanded hnew
  refine ⟨field, _, inserted, _, wanted, _, h.identityField_eq, storedDocument_eq_written h hstrategies hold,
    hinserted, storedDocument_eq_written h hstrategies hnew, hwanted, updateOf_ok h.identityField_eq _, ?_⟩
  intro d hd
  rw [updated?_settingFields, Mapping.updatable_named]
  exact h.exists_isUpdated hwritten hrewritten hd

/-- Someone who has moved, and whose street is known. -/
def mover : Value :=
  .record .data [("number", .int 3), ("city", .text "Bergen"), ("name", .text "Ada"), ("street", .text "Torget")]
    .absent

theorem update_agrees_with_insert_mover :
    ∃ field oldDocument inserted newDocument wanted update,
      inhabitants.identityField = .ok field ∧
      registry.storedDocument arrival = .ok oldDocument ∧ expandFields oldDocument = .ok inserted ∧
      registry.storedDocument mover = .ok newDocument ∧ expandFields newDocument = .ok wanted ∧
      registry.updateOf newDocument = .ok update ∧
      ∃ e, updated? ((.text "visits", .int 2) :: inserted) update = some e ∧
        inhabitants.IsUpdated field wanted ((.text "visits", .int 2) :: inserted) e := by
  have hvalid : registry.mapping.validate = .ok () := by rfl
  have harrival : flatten arrival =
      .ok (named [("number", .null), ("city", .text "Oslo"), ("name", .text "Ada")]) := by rfl
  have hmover : flatten mover = .ok (named [("number", .int 3), ("city", .text "Bergen"), ("name", .text "Ada"),
      ("street", .text "Torget")]) := by rfl
  obtain ⟨field, oldDocument, inserted, newDocument, wanted, update, hfield, hold, hinserted, hnew, hwanted, hupdate,
    hupdates⟩ := update_agrees_with_insert hvalid rfl harrival hmover
  refine ⟨field, oldDocument, inserted, newDocument, wanted, update, hfield, hold, hinserted, hnew, hwanted, hupdate,
    ?_⟩
  apply hupdates
  intro f hf _
  have hstart : "visits" ≠ Path.start f.2 := by
    revert f
    decide
  simp [Dictionary.get?, hstart]

end Repository

end EntityStore

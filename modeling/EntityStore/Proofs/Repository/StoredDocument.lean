import EntityStore.Proofs.Document.Flattening
import EntityStore.Proofs.Mapping.Acceptance
import EntityStore.Proofs.Repository.IdentityKey
import EntityStore.Proofs.Value.Identity
import EntityStore.Repository.Writing

namespace EntityStore

/-- What a flat document holds under a name, null if it holds nothing. -/
def Document.valueOf (flat : Document) (name : String) : Value :=
  (Dictionary.get? (.text name) flat).getD .null

namespace Mapping

open Document Expand

variable {m : Mapping} {field : String} {flat : Document}

/-- The stored fields of a flat document by their storage names. -/
def entries (m : Mapping) (flat : Document) : List (String × Value) :=
  m.fields.map fun f => (f.2, flat.valueOf f.1)

def changes (m : Mapping) (field : String) (flat : Document) : List (String × Value) :=
  (m.entries flat).filter fun e => !(e.1 == field) && !(e.1 == nativeField)

theorem storedFields_plain (m : Mapping) (flat : Document) :
    m.storedFields (.plain flat) = .ok (named (m.entries flat)) := by
  have hmap : named (m.entries flat) = m.fields.map fun f => (.text f.2, flat.valueOf f.1) := by
    simp [entries]
  rw [hmap]
  exact Outcome.mapM_ok _ _ m.fields fun _ _ => rfl

theorem updatable_named (es : List (String × Value)) :
    updatable field (named es) = named (es.filter fun e => !(e.1 == field) && !(e.1 == nativeField)) := by
  simp [updatable, named, List.filter_map, Function.comp_def]

/-- Whether a document is that of an identity, and nothing in it is in the way of the stored fields. -/
structure Identifies (m : Mapping) (field : String) (k : IdentityKey) (d : Document) : Prop where
  identity : ∃ v, d.stored? field = some v ∧ (v == k.value) = true
  accepts : ∀ f ∈ m.fields, d.Accepts f.2

/-- Whether a document stores the fields of a flat one under an identity. -/
structure Stores (m : Mapping) (field : String) (k : IdentityKey) (flat d : Document) : Prop
    extends Identifies m field k d where
  others : ∀ f ∈ m.fields, f.2 ≠ field → d.stored? f.2 = some (flat.valueOf f.1)

theorem mem_entries {e : String × Value} :
    e ∈ m.entries flat ↔ ∃ f ∈ m.fields, (f.2, flat.valueOf f.1) = e := List.mem_map

theorem isLeaf_valueOf {entity : Value} (hflat : flatten entity = .ok flat) (name : String) :
    Flatten.IsLeaf (flat.valueOf name) := by
  rw [valueOf]
  cases hf : Dictionary.get? (.text name) flat with
  | none => trivial
  | some v =>
    obtain ⟨key, _, hmem⟩ := Dictionary.exists_mem_of_get? hf
    exact isLeaf_of_flatten hflat _ hmem

theorem isCopyable_entries {entity : Value} (hflat : flatten entity = .ok flat) :
    ∀ e ∈ m.entries flat, IsCopyable e.2 := by
  intro e he
  obtain ⟨f, _, rfl⟩ := mem_entries.mp he
  exact (isLeaf_valueOf hflat f.1).isCopyable

namespace IsConsistent

variable (h : m.IsConsistent field)
include h

theorem identityField_eq : m.identityField = .ok field := by
  rw [identityField, h.identity]

theorem mem_fields : (m.identity, field) ∈ m.fields := Dictionary.mem_of_get? h.identity

theorem get?_entries (flat : Document) :
    Dictionary.get? (.text field) (named (m.entries flat)) = some (flat.valueOf m.identity) := by
  have hdistinct : (m.entries flat).Pairwise fun e f => e.1 ≠ f.1 := List.pairwise_map.mpr h.distinct
  exact get?_named hdistinct (mem_entries.mpr ⟨_, h.mem_fields, rfl⟩)

theorem entries_apart (flat : Document) : (m.entries flat).Pairwise fun e f => Path.Apart e.1 f.1 :=
  List.pairwise_map.mpr (h.distinct.imp_of_mem fun hf hg hne => h.apart _ hf _ hg hne)

theorem changes_apart (flat : Document) :
    (m.changes field flat).Pairwise fun e f => Path.Apart e.1 f.1 :=
  (h.entries_apart flat).filter _

theorem stores_expanded {entity : Value} (hflat : flatten entity = .ok flat) {k : IdentityKey}
    (hkey : (flat.valueOf m.identity == k.value) = true) :
    ∃ d, expandFields (named (m.entries flat)) = .ok d ∧ m.Stores field k flat d ∧
      ∀ name, (∀ f ∈ m.fields, Path.Apart f.2 name) → d.stored? name = none := by
  obtain ⟨d, hd, hset, hnone⟩ := expandFields_named (h.entries_apart flat) (isCopyable_entries hflat)
  have hfield : ∀ f ∈ m.fields, d.stored? f.2 = some (flat.valueOf f.1) ∧ d.Accepts f.2 :=
    fun f hf => hset _ (mem_entries.mpr ⟨f, hf, rfl⟩)
  refine ⟨d, hd, ⟨⟨⟨_, (hfield _ h.mem_fields).1, hkey⟩, fun f hf => (hfield f hf).2⟩,
    fun f hf _ => (hfield f hf).1⟩, fun name hname => hnone name fun e he => ?_⟩
  obtain ⟨f, hf, rfl⟩ := mem_entries.mp he
  exact hname f hf

/-- Setting the fields of an entity in the document of its identity makes it one that stores the entity. -/
theorem stores_changed (hnative : ∀ f ∈ m.fields, f.2 ≠ nativeField) {k : IdentityKey} {d : Document}
    (hd : m.Identifies field k d) (flat : Document) :
    ∃ e, setFields (named (m.changes field flat)) d = some e ∧ m.Stores field k flat e := by
  have hmem {e : String × Value} : e ∈ m.changes field flat ↔
      ∃ f ∈ m.fields, f.2 ≠ field ∧ (f.2, flat.valueOf f.1) = e := by
    rw [changes, List.mem_filter, mem_entries]
    constructor
    · rintro ⟨⟨f, hf, rfl⟩, hne⟩
      exact ⟨f, hf, by simpa using fun hfield => by simp [hfield] at hne, rfl⟩
    · rintro ⟨f, hf, hne, rfl⟩
      exact ⟨⟨f, hf, rfl⟩, by simp [hne, hnative f hf]⟩
  have haccepts : ∀ e ∈ m.changes field flat, d.Accepts e.1 := by
    intro e he
    obtain ⟨f, hf, _, rfl⟩ := hmem.mp he
    exact hd.accepts f hf
  obtain ⟨e, he, hset, hkept⟩ := setFields_named (h.changes_apart flat) haccepts
  -- The identity itself is not set, and all that is set lies apart from it.
  have hidentity : ∀ e ∈ m.changes field flat, Path.Apart e.1 field := by
    intro e he
    obtain ⟨f, hf, hne, rfl⟩ := hmem.mp he
    exact h.apart f hf _ h.mem_fields hne
  obtain ⟨hsame, hopen⟩ := hkept field hidentity
  have hchanged : ∀ f ∈ m.fields, f.2 ≠ field → e.stored? f.2 = some (flat.valueOf f.1) ∧ e.Accepts f.2 :=
    fun f hf hne => hset _ (hmem.mpr ⟨f, hf, hne, rfl⟩)
  refine ⟨e, he, ⟨by rw [hsame]; exact hd.identity, ?_⟩, fun f hf hne => (hchanged f hf hne).1⟩
  intro f hf
  by_cases hne : f.2 = field
  · rw [hne]
    exact hopen (hd.accepts _ h.mem_fields)
  · exact (hchanged f hf hne).2

end IsConsistent

end Mapping

end EntityStore

namespace EntityStore.Repository

variable {α : Type} {r : Repository α}

theorem requireIdentity_of_id {v i : Value} (h : v.id = .ok i) : requireIdentity v = .ok () := by
  rw [requireIdentity, Value.isIdentity_of_id h]
  rfl

/-- Without strategies an entity is stored as the fields of the flat document that it is. -/
theorem storedDocument_of_flatten (strategies : r.strategies = .standard) {entity : Value} {flat : Document}
    (h : flatten entity = .ok flat) : r.storedDocument entity =
      .ok (r.mapping.withNativeIdentity (Document.named (r.mapping.entries flat))) := by
  have hserialize : r.strategies.serialize entity = .ok (.plain flat) := by
    rw [strategies]
    simp [Strategies.standard, Strategies.flatDocument, h]
  rw [storedDocument, hserialize, Outcome.ok_bind, Mapping.storedDocument, Mapping.storedFields_plain]
  rfl

theorem updateOf_ok {field : String} (h : r.mapping.identityField = .ok field) (document : Document) :
    r.updateOf document = .ok (settingFields (Mapping.updatable field document)) := by
  rw [updateOf, h]
  rfl

end EntityStore.Repository

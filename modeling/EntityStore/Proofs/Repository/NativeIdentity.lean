import EntityStore.Proofs.Repository.GivenEntity
import EntityStore.Proofs.Repository.StoredDocument
import Mathlib.Data.List.Basic

namespace EntityStore

open Document

theorem Dictionary.erase_named {es : List (String × Value)} (h : es.Pairwise fun e f => e.1 ≠ f.1) (name : String) :
    Dictionary.erase (.text name) (named es) = named (es.filter fun e => e.1 != name) := by
  induction es with
  | nil => rfl
  | cons e es ih =>
    obtain ⟨he, hrest⟩ := List.pairwise_cons.mp h
    by_cases hname : e.1 = name
    · have hkept : es.filter (fun f => f.1 != name) = es := by
        apply List.filter_eq_self.mpr
        intro f hf
        have hne : f.1 ≠ name := fun hf' => he f hf (hname.trans hf'.symm)
        simp [hne]
      simp [named, Dictionary.erase, hname, hkept]
    · have htail := ih hrest
      simp only [named] at htail
      simp [named, Dictionary.erase, hname, htail]

namespace Mapping

/-- What the document of an entity stores of a value under a storage name. The native field is left out where
the engine is still to give it, and holds the native identifier where one is denoted. -/
def writtenAs (m : Mapping) (name : String) (v : Value) : Option Value :=
  if m.generatesIds && name == nativeField then
    if v.isNewIdentity then none
    else match ObjectId.ofValue? v with
      | some o => some (.objectId o)
      | none => some v
  else some v

/-- The stored fields of a flat document as they are written. -/
def writtenEntries (m : Mapping) (flat : Document) : List (String × Value) :=
  (m.entries flat).filterMap fun e => (m.writtenAs e.1 e.2).map fun v => (e.1, v)

variable {m : Mapping} {field : String} {flat : Document}

theorem writtenAs_of_given (hgiven : m.generatesIds = false) (name : String) (v : Value) :
    m.writtenAs name v = some v := by
  simp [writtenAs, hgiven]

theorem writtenAs_of_ne {name : String} (hname : name ≠ nativeField) (v : Value) : m.writtenAs name v = some v := by
  simp [writtenAs, hname]

/-- Where the engine generates identities, nothing is written for one that is new. -/
theorem writtenAs_of_isNewIdentity {v w : Value} (h : m.writtenAs nativeField v = some w)
    (hnew : w.isNewIdentity = true) : m.generatesIds = false ∧ v = w := by
  rw [writtenAs] at h
  cases hgenerates : m.generatesIds with
  | false => exact ⟨rfl, by simpa [hgenerates] using h⟩
  | true =>
    simp only [hgenerates, beq_self_eq_true, Bool.and_self, if_true] at h
    split at h
    · exact absurd h (by simp)
    · next hold =>
      split at h
      · rw [← Option.some.inj h] at hnew
        exact absurd hnew Bool.false_ne_true
      · rw [Option.some.inj h] at hold
        exact absurd hnew hold

theorem mem_writtenEntries {e : String × Value} : e ∈ m.writtenEntries flat ↔
    ∃ f ∈ m.fields, f.2 = e.1 ∧ m.writtenAs f.2 (flat.valueOf f.1) = some e.2 := by
  simp only [writtenEntries, List.mem_filterMap, mem_entries, Option.map_eq_some_iff]
  constructor
  · rintro ⟨_, ⟨f, hf, rfl⟩, v, hv, rfl⟩
    exact ⟨f, hf, rfl, hv⟩
  · rintro ⟨f, hf, hname, hv⟩
    exact ⟨_, ⟨f, hf, rfl⟩, e.2, hv, Prod.ext hname rfl⟩

theorem isLeaf_writtenEntries {entity : Value} (hflat : flatten entity = .ok flat) :
    ∀ e ∈ m.writtenEntries flat, Flatten.IsLeaf e.2 := by
  intro e he
  obtain ⟨f, _, _, hv⟩ := mem_writtenEntries.mp he
  have hleaf := isLeaf_valueOf hflat f.1
  rw [writtenAs] at hv
  split at hv
  · split at hv
    · exact absurd hv (by simp)
    · split at hv
      · rw [← Option.some.inj hv]
        trivial
      · exact Option.some.inj hv ▸ hleaf
  · exact Option.some.inj hv ▸ hleaf

theorem isCopyable_writtenEntries {entity : Value} (hflat : flatten entity = .ok flat) :
    ∀ e ∈ m.writtenEntries flat, Expand.IsCopyable e.2 :=
  fun e he => (isLeaf_writtenEntries hflat e he).isCopyable

namespace IsConsistent

variable (h : m.IsConsistent field)
include h

theorem writtenEntries_apart (flat : Document) :
    (m.writtenEntries flat).Pairwise fun e f => Path.Apart e.1 f.1 := by
  refine (h.entries_apart flat).filterMap _ ?_
  intro e f hapart e' he f' hf
  obtain ⟨_, _, rfl⟩ := Option.map_eq_some_iff.mp he
  obtain ⟨_, _, rfl⟩ := Option.map_eq_some_iff.mp hf
  exact hapart

/-- The stored fields of an entity, with the native field as it is written. -/
theorem withNativeIdentity_eq (flat : Document) :
    m.withNativeIdentity (named (m.entries flat)) = named (m.writtenEntries flat) := by
  have hdistinct : (m.entries flat).Pairwise fun e f => e.1 ≠ f.1 := List.pairwise_map.mpr h.distinct
  cases hgenerates : m.generatesIds with
  | false => simp [withNativeIdentity, writtenEntries, writtenAs_of_given, hgenerates]
  | true =>
    obtain rfl := h.native hgenerates
    -- The identity is the one value that is stored in the native field.
    have hid : ∀ e ∈ m.entries flat, e.1 = nativeField → e.2 = flat.valueOf m.identity :=
      fun e he hname => h.eq_identity_of_mem he hname
    rw [withNativeIdentity, if_pos hgenerates, h.get?_entries, Option.getD_some]
    simp only
    split
    · next hnew =>
      rw [Dictionary.erase_named hdistinct, writtenEntries, ← List.filterMap_eq_filter]
      refine congrArg named (List.filterMap_congr fun e he => ?_)
      by_cases hname : e.1 = nativeField
      · simp [Option.guard, writtenAs, hgenerates, hname, hid e he hname, hnew]
      · simp [Option.guard, writtenAs_of_ne, hname]
    · next hold =>
      split
      · next o ho =>
        have hmem : (nativeField, flat.valueOf m.identity) ∈ m.entries flat :=
          mem_entries.mpr ⟨_, h.mem_fields, rfl⟩
        rw [Dictionary.insert_named hdistinct hmem, writtenEntries, ← List.filterMap_eq_map]
        refine congrArg named (List.filterMap_congr fun e he => ?_)
        by_cases hname : e.1 = nativeField
        · simp [writtenAs, hgenerates, hname, hid e he hname, hold, ho]
        · simp [writtenAs_of_ne, hname]
      · next ho =>
        have hsame : m.writtenEntries flat = (m.entries flat).filterMap some := by
          refine List.filterMap_congr fun e he => ?_
          by_cases hname : e.1 = nativeField
          · simp [writtenAs, hgenerates, hname, hid e he hname, hold, ho, Prod.ext_iff]
          · simp [writtenAs_of_ne, hname]
        rw [hsame, List.filterMap_some]

end IsConsistent

end Mapping

namespace Repository

variable {α : Type} {r : Repository α} {field : String}

theorem exists_flatten_of_storedDocument (hstrategies : r.strategies = .standard) {entity : Value}
    {document : Document} (hdocument : r.storedDocument entity = .ok document) :
    ∃ flat, flatten entity = .ok flat ∧
      document = r.mapping.withNativeIdentity (named (r.mapping.entries flat)) := by
  cases hflat : flatten entity with
  | error e =>
    rw [storedDocument, hstrategies] at hdocument
    simp [Strategies.standard, Strategies.flatDocument, hflat] at hdocument
  | ok flat =>
    rw [storedDocument_of_flatten hstrategies hflat] at hdocument
    exact ⟨flat, rfl, (Except.ok.inj hdocument).symm⟩

/-- The document that stores an entity can be written with nested fields. -/
theorem exists_expandFields (h : r.mapping.IsConsistent field) (hstrategies : r.strategies = .standard)
    {entity : Value} {document : Document} (hdocument : r.storedDocument entity = .ok document) :
    ∃ expanded, expandFields document = .ok expanded := by
  obtain ⟨flat, hflat, rfl⟩ := exists_flatten_of_storedDocument hstrategies hdocument
  rw [h.withNativeIdentity_eq]
  obtain ⟨expanded, hexpanded, _⟩ :=
    Expand.expandFields_named (h.writtenEntries_apart flat) (Mapping.isCopyable_writtenEntries hflat)
  exact ⟨expanded, hexpanded⟩

end Repository

end EntityStore

import EntityStore.Proofs.Document.Leaves
import EntityStore.Proofs.Document.NativeField
import EntityStore.Proofs.Repository.NativeIdentity
import Mathlib.Data.List.Nodup

namespace EntityStore

open Document
open Mapping (nativeField)

/-- Nothing but a document can be set where there is something already. -/
theorem Expand.setField_native {d : Document} {old : Value} (hold : Dictionary.get? (.text nativeField) d = some old)
    (o : ObjectId) :
    Expand.setField d (.text nativeField, .objectId o) = .error (.fieldSetTwice nativeField) := by
  have hset : Expand.setField d (.text nativeField, .objectId o) =
      Expand.setLeaf nativeField (.text nativeField) (.objectId o) d := rfl
  rw [hset, Expand.setLeaf, hold]
  cases hwritable : Expand.writable? old <;> simp [Expand.writable?]

namespace Mapping

variable {m : Mapping} {field : String} {entity : Value} {flat d : Document}

/-- Whether a field is stored inside the native one. -/
def NestsNative (m : Mapping) : Prop := ∃ f ∈ m.fields, Path.start f.2 = nativeField ∧ f.2 ≠ nativeField

/-- Whether a document is the one in which a flat one is written. -/
structure IsWritten (m : Mapping) (flat d : Document) : Prop where
  stores : ∀ f ∈ m.fields, d.stored? f.2 = m.writtenAs f.2 (flat.valueOf f.1)
  accepts : ∀ f ∈ m.fields, f.2 ≠ nativeField → d.Accepts f.2
  leaves : ∀ l, l ∈ Flatten.fieldLeaves [] d ↔ ∃ f ∈ m.fields,
    l.1 = (Path.ofText f.2).keys ∧ m.writtenAs f.2 (flat.valueOf f.1) = some l.2

namespace IsConsistent

variable (h : m.IsConsistent field)
include h

theorem eq_of_storage {f g : String × String} (hf : f ∈ m.fields) (hg : g ∈ m.fields) (hname : f.2 = g.2) :
    f = g := by
  have hnodup : (m.fields.map (·.2)).Nodup := List.pairwise_map.mpr h.distinct
  exact List.inj_on_of_nodup_map hnodup hf hg hname

/-- A field that is left out has a name apart from those that are written. -/
theorem apart_of_left {f : String × String} (hf : f ∈ m.fields) (hleft : m.writtenAs f.2 (flat.valueOf f.1) = none) :
    ∀ e ∈ m.writtenEntries flat, Path.Apart e.1 f.2 := by
  intro e he
  obtain ⟨g, hg, hname, hv⟩ := mem_writtenEntries.mp he
  rw [← hname]
  apply h.apart g hg f hf
  intro hsame
  obtain rfl := h.eq_of_storage hg hf hsame
  exact absurd hv (by simp [hleft])

/-- Once its names are gone into, the document of an entity stores all of its fields. -/
theorem exists_expanded (hflat : flatten entity = .ok flat) :
    ∃ d, expandFields (named (m.writtenEntries flat)) = .ok d ∧ m.IsWritten flat d := by
  have hapart := h.writtenEntries_apart flat
  obtain ⟨d, hd, hset, hnone⟩ := Expand.expandFields_named hapart (isCopyable_writtenEntries hflat)
  have hmem {f : String × String} (hf : f ∈ m.fields) {v : Value}
      (hv : m.writtenAs f.2 (flat.valueOf f.1) = some v) : d.stored? f.2 = some v ∧ d.Accepts f.2 :=
    hset (f.2, v) (mem_writtenEntries.mpr ⟨f, hf, rfl, hv⟩)
  refine ⟨d, hd, ?_, ?_, ?_⟩
  · intro f hf
    cases hv : m.writtenAs f.2 (flat.valueOf f.1) with
    | none => exact hnone f.2 (h.apart_of_left hf hv)
    | some v => exact (hmem hf hv).1
  · intro f hf hnative
    exact (hmem hf (writtenAs_of_ne hnative _)).2
  · intro l
    rw [Expand.mem_fieldLeaves_expandFields hapart (isLeaf_writtenEntries hflat) hd]
    constructor
    · rintro ⟨e, he, rfl⟩
      obtain ⟨f, hf, hname, hv⟩ := mem_writtenEntries.mp he
      exact ⟨f, hf, by rw [hname], hv⟩
    · rintro ⟨f, hf, hkeys, hv⟩
      exact ⟨(f.2, l.2), mem_writtenEntries.mpr ⟨f, hf, rfl, hv⟩, Prod.ext hkeys rfl⟩

/-- With an identifier in the native field an entity is written as it would be without. -/
theorem exists_expanded_fresh (hnests : ¬m.NestsNative) (hflat : flatten entity = .ok flat)
    (hd : expandFields (named (m.writtenEntries flat)) = .ok d) (o : ObjectId) :
    ∃ e, expandFields (Dictionary.insert (.text nativeField) (.objectId o) (named (m.writtenEntries flat))) = .ok e ∧
      e.withoutNative = d.withoutNative ∧ Dictionary.get? (.text nativeField) e = some (.objectId o) := by
  have hapart := h.writtenEntries_apart flat
  have hcopy : ∀ e ∈ m.writtenEntries flat, Expand.IsCopyable e.2 := isCopyable_writtenEntries hflat
  have hstart : ∀ e ∈ m.writtenEntries flat, Path.start e.1 = nativeField → e.1 = nativeField := by
    intro e he hstart
    obtain ⟨f, hf, hname, _⟩ := mem_writtenEntries.mp he
    rw [← hname] at hstart ⊢
    by_contra hne
    exact hnests ⟨f, hf, hstart, hne⟩
  let fresh := Dictionary.insert nativeField (.objectId o) (m.writtenEntries flat)
  have hfresh : fresh.Pairwise fun e f => Path.Apart e.1 f.1 := by
    apply Dictionary.pairwise_insert hapart
    intro e he hne
    exact (Path.apart_native_iff.mpr fun hnative => hne (hstart e he hnative)).symm
  have hfreshCopy : ∀ e ∈ fresh, Expand.IsCopyable e.2 := Dictionary.forall_insert rfl hcopy
  have hfreshStart : ∀ e ∈ fresh, Path.start e.1 = nativeField → e.1 = nativeField := by
    intro e he
    rcases Dictionary.mem_insert he with ⟨hname, _⟩ | he
    · exact fun _ => hname.elim id eq_of_beq
    · exact hstart e he
  have hmem : (nativeField, Value.objectId o) ∈ fresh :=
    Dictionary.mem_of_get? (Dictionary.get?_insert_self (beq_self_eq_true nativeField) _ _)
  obtain ⟨e, he, hset, _⟩ := setFields_named hfresh fun f _ => accepts_nil f.1
  obtain ⟨d', hd', _⟩ := setFields_named hapart fun f _ => accepts_nil f.1
  have hexpanded := Expand.expandFields_of_setFields hapart hcopy hd'
  obtain rfl := Except.ok.inj (hexpanded.symm.trans hd)
  refine ⟨e, ?_, ?_, ?_⟩
  · rw [Dictionary.insert_text_named]
    exact Expand.expandFields_of_setFields hfresh hfreshCopy he
  · have hfirst := setFields_withoutNative hfreshStart he
    have hsecond := setFields_withoutNative hstart hd'
    rw [Dictionary.filter_insert] at hfirst
    exact Option.some.inj (hfirst.symm.trans hsecond)
  · rw [← stored?_nativeField]
    exact (hset _ hmem).1

/-- Where fields are stored inside the native field, it cannot be given an identifier. -/
theorem expandFields_fresh_error (hnests : m.NestsNative) (hflat : flatten entity = .ok flat) (o : ObjectId) :
    expandFields (Dictionary.insert (.text nativeField) (.objectId o) (named (m.writtenEntries flat))) =
      .error (.fieldSetTwice nativeField) := by
  obtain ⟨f, hf, hstart, hne⟩ := hnests
  have hother : ∀ g ∈ m.fields, g.2 ≠ nativeField := by
    intro g hg hname
    have hapart := h.apart g hg f hf (by rw [hname]; exact hne.symm)
    rw [hname] at hapart
    exact Path.apart_native_iff.mp hapart hstart
  have hnew : ∀ e ∈ m.writtenEntries flat, e.1 ≠ nativeField := by
    intro e he
    obtain ⟨g, hg, hname, _⟩ := mem_writtenEntries.mp he
    exact hname ▸ hother g hg
  obtain ⟨d, hd, hwritten⟩ := h.exists_expanded hflat
  -- What is stored inside the native field is there before the identifier is set.
  obtain ⟨old, hold⟩ : ∃ old, Dictionary.get? (.text nativeField) d = some old := by
    have hstored := hwritten.stores f hf
    obtain ⟨p, hp⟩ := Path.exists_ofText f.2
    rw [writtenAs_of_ne hne, stored?, hp, hstart] at hstored
    cases hget : Dictionary.get? (.text nativeField) d with
    | none => simp [Path.keys, valueAt?, hget] at hstored
    | some old => exact ⟨old, rfl⟩
  rw [Dictionary.insert_text_named, Dictionary.insert_eq_append hnew, named, List.map_append, expandFields,
    List.foldlM_append]
  change expandFields (named (m.writtenEntries flat)) >>= _ = _
  rw [hd, Outcome.ok_bind]
  change Expand.setField d (.text nativeField, .objectId o) >>= _ = _
  rw [Expand.setField_native hold]
  rfl

end IsConsistent

end Mapping

namespace Repository

variable {α : Type} {r : Repository α}

theorem storedDocument_eq_written {field : String} (h : r.mapping.IsConsistent field)
    (hstrategies : r.strategies = .standard) {entity : Value} {flat : Document} (hflat : flatten entity = .ok flat) :
    r.storedDocument entity = .ok (named (r.mapping.writtenEntries flat)) := by
  rw [storedDocument_of_flatten hstrategies hflat, h.withNativeIdentity_eq]

/-- Every entity that can be flattened can be written with nested fields. Its document stores under each storage
name what the flat entity holds under the logical one, and has no other leaves. -/
theorem storedDocument_expands (hvalid : r.mapping.validate = .ok ()) (hstrategies : r.strategies = .standard)
    {entity : Value} {flat : Document} (hflat : flatten entity = .ok flat) :
    ∃ document d, r.storedDocument entity = .ok document ∧ expandFields document = .ok d ∧
      (∀ f ∈ r.mapping.fields, d.stored? f.2 = r.mapping.writtenAs f.2 (flat.valueOf f.1)) ∧
      ∀ l, l ∈ Flatten.fieldLeaves [] d ↔ ∃ f ∈ r.mapping.fields,
        l.1 = (Path.ofText f.2).keys ∧ r.mapping.writtenAs f.2 (flat.valueOf f.1) = some l.2 := by
  obtain ⟨field, h⟩ := Mapping.isConsistent_of_validate hvalid
  obtain ⟨d, hd, hwritten⟩ := h.exists_expanded hflat
  exact ⟨_, d, storedDocument_eq_written h hstrategies hflat, hd, hwritten.stores, hwritten.leaves⟩

/-- Inhabitants with an address of several fields. The engine gives them their identity. -/
def inhabitants : Mapping :=
  ⟨"inhabitants", [("number", "_id"), ("city", "address.city"), ("name", "name"), ("street", "address.road.name")],
    "number", true⟩

def registry : Repository Unit := ⟨"registry", inhabitants, none, .standard⟩

/-- Someone who is new, and of whom no street is known. -/
def arrival : Value := .record .data [("number", .null), ("city", .text "Oslo"), ("name", .text "Ada")] .absent

theorem storedDocument_expands_arrival :
    let flat : Document := named [("number", .null), ("city", .text "Oslo"), ("name", .text "Ada")]
    ∃ document d, registry.storedDocument arrival = .ok document ∧ expandFields document = .ok d ∧
      (∀ f ∈ inhabitants.fields, d.stored? f.2 = inhabitants.writtenAs f.2 (flat.valueOf f.1)) ∧
      ∀ l, l ∈ Flatten.fieldLeaves [] d ↔ ∃ f ∈ inhabitants.fields,
        l.1 = (Path.ofText f.2).keys ∧ inhabitants.writtenAs f.2 (flat.valueOf f.1) = some l.2 :=
  storedDocument_expands (r := registry) (by rfl) rfl (by rfl)

end Repository

end EntityStore

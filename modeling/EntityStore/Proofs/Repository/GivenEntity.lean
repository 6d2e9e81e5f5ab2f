import EntityStore.Proofs.Repository.GivenIdentity
import EntityStore.Repository.Writing

namespace EntityStore

/-- An entity with an identity that is given, and the flat document that holds the same. -/
structure GivenEntity (m : Mapping) where
  value : Value
  id : Value
  flat : Document
  tells : value.id = .ok id
  flattens : flatten value = .ok flat
  given : id.isGiven = true
  holds : (flat.valueOf m.identity == id) = true

theorem Dictionary.insert_named {es : List (String × Value)} (h : es.Pairwise fun e f => e.1 ≠ f.1)
    {name : String} {v : Value} (hv : (name, v) ∈ es) (w : Value) :
    Dictionary.insert (.text name) w (Document.named es) =
      Document.named (es.map fun e => (e.1, if e.1 = name then w else e.2)) := by
  induction es with
  | nil => simp at hv
  | cons e es ih =>
    obtain ⟨he, hrest⟩ := List.pairwise_cons.mp h
    by_cases hname : e.1 = name
    · have hother : es.map (fun f => (f.1, if f.1 = name then w else f.2)) = es := by
        refine (List.map_congr_left fun f hf => ?_).trans (List.map_id es)
        have hne : f.1 ≠ name := fun hf' => he f hf (hname.trans hf'.symm)
        simp [hne]
      simp [Document.named, Dictionary.insert, hname, hother]
    · have hmem : (name, v) ∈ es := by
        rcases List.mem_cons.mp hv with rfl | hv
        · exact absurd rfl hname
        · exact hv
      have htail := ih hrest hmem
      simp only [Document.named] at htail
      simp [Document.named, Dictionary.insert, hname, htail]

theorem Expand.isCopyable_native {v : Value} (h : IsCopyable v) : IsCopyable v.native := by
  cases v with
  | list _ | tuple _ => rfl
  | text s => cases hs : ObjectId.ofText? s <;> simp [Value.native, ObjectId.ofValue?, hs] <;> rfl
  | bytes bs => cases hs : ObjectId.ofBytes? bs <;> simp [Value.native, ObjectId.ofValue?, hs] <;> rfl
  | _ => exact h

namespace Document

variable {d e : Document}

/-- Nothing but documents stands in the native field, put there for the sake of names that lead into it. -/
def HoldsNoNative (d : Document) : Prop :=
  ∀ v, Dictionary.get? (.text Mapping.nativeField) d = some v → v.isDocument = true

theorem HoldsNoNative.setField {f : String × Value} (hd : d.HoldsNoNative) (hf : f.1 ≠ Mapping.nativeField)
    (h : Document.setField d (.text f.1, f.2) = some e) : e.HoldsNoNative := by
  have hplace : place (Path.ofText f.1) f.2 d = some e := h
  intro v hv
  cases hpath : Path.ofText f.1 with
  | nil => exact absurd hpath (Path.ofText_ne_nil f.1)
  | cons s p =>
    rw [hpath] at hplace
    by_cases hs : s = Mapping.nativeField
    · subst hs
      cases p with
      | nil =>
        have htext := Path.text_ofText f.1
        rw [hpath] at htext
        exact absurd htext.symm hf
      | cons t p =>
        obtain ⟨kind, fields, changed, _, _, rfl⟩ := place_cons.mp hplace
        rw [get?_insert_text_self, Option.some.injEq] at hv
        rw [← hv]
        rfl
    · rw [get?_place_of_ne hplace hs] at hv
      exact hd v hv

theorem HoldsNoNative.setFields {fields : List (String × Value)} (hd : d.HoldsNoNative)
    (hfields : ∀ f ∈ fields, f.1 ≠ Mapping.nativeField) (h : Document.setFields (named fields) d = some e) :
    e.HoldsNoNative := by
  induction fields generalizing d with
  | nil =>
    rw [Document.setFields, named, List.map_nil, List.foldlM_nil] at h
    obtain rfl := Option.some.inj h
    exact hd
  | cons f fields ih =>
    rw [Document.setFields, named, List.map_cons, List.foldlM_cons] at h
    obtain ⟨first, hfirst, h⟩ := Option.bind_eq_some_iff.mp h
    exact ih (hd.setField (hfields f (by simp)) hfirst) (fun g hg => hfields g (by simp [hg])) h

end Document

namespace Mapping

open Document

variable {m : Mapping} {field : String}

/-- The fields that store a flat document, the identity as it is kept in the native field. -/
def storedEntries (m : Mapping) (flat : Document) : List (String × Value) :=
  (m.entries flat).map fun e =>
    (e.1, if m.generatesIds = true ∧ e.1 = nativeField then e.2.native else e.2)

namespace IsConsistent

variable (h : m.IsConsistent field)
include h

theorem eq_identity_of_mem {flat : Document} {e : String × Value} (he : e ∈ m.entries flat)
    (hfield : e.1 = field) : e.2 = flat.valueOf m.identity := by
  have hdistinct : (m.entries flat).Pairwise fun e f => e.1 ≠ f.1 := List.pairwise_map.mpr h.distinct
  have hget := get?_named hdistinct he
  rw [hfield, h.get?_entries] at hget
  exact (Option.some.inj hget).symm

theorem withNativeIdentity_entries (e : GivenEntity m) :
    m.withNativeIdentity (named (m.entries e.flat)) = named (m.storedEntries e.flat) := by
  have hsame (hnative : m.generatesIds = true → (e.flat.valueOf m.identity).native =
      e.flat.valueOf m.identity) : m.storedEntries e.flat = m.entries e.flat := by
    refine (List.map_congr_left fun f hf => ?_).trans (List.map_id (m.entries e.flat))
    split
    · next hgenerates =>
      have hid := h.eq_identity_of_mem hf (hgenerates.2.trans (h.native hgenerates.1).symm)
      rw [hid, hnative hgenerates.1, ← hid]
      rfl
    · rfl
  cases hgenerates : m.generatesIds with
  | false => simp [withNativeIdentity, hgenerates, hsame]
  | true =>
    obtain rfl := h.native hgenerates
    have hatom := Value.isAtom_of_beq_given e.given e.holds
    have hnative := Value.native_of_isAtom hatom
    have hnew := Value.isNewIdentity_of_beq_given e.given e.holds
    rw [withNativeIdentity, if_pos hgenerates, h.get?_entries, Option.getD_some]
    simp only [hnew, Bool.false_eq_true, if_false]
    cases ho : ObjectId.ofValue? (e.flat.valueOf m.identity) with
    | none =>
      rw [ho] at hnative
      simp [hsame fun _ => hnative]
    | some o =>
      rw [ho] at hnative
      have hmem : (nativeField, e.flat.valueOf m.identity) ∈ m.entries e.flat :=
        mem_entries.mpr ⟨_, h.mem_fields, rfl⟩
      have hdistinct : (m.entries e.flat).Pairwise fun e f => e.1 ≠ f.1 :=
        List.pairwise_map.mpr h.distinct
      refine (Dictionary.insert_named hdistinct hmem (.objectId o)).trans ?_
      rw [storedEntries]
      refine congrArg named (List.map_congr_left fun f hf => ?_)
      by_cases hf' : f.1 = nativeField
      · rw [h.eq_identity_of_mem hf hf']
        simp [hf', hgenerates, hnative]
      · simp [hf']

theorem storedEntries_apart (flat : Document) :
    (m.storedEntries flat).Pairwise fun e f => Path.Apart e.1 f.1 :=
  List.pairwise_map.mpr (h.entries_apart flat)

theorem identity_mem_storedEntries (flat : Document) :
    (field, m.storedIdentity (flat.valueOf m.identity)) ∈ m.storedEntries flat := by
  refine List.mem_map.mpr ⟨(field, flat.valueOf m.identity), mem_entries.mpr ⟨_, h.mem_fields, rfl⟩, ?_⟩
  cases hgenerates : m.generatesIds with
  | false => simp [storedIdentity, hgenerates]
  | true => simp [storedIdentity, hgenerates, h.native hgenerates]

theorem get?_storedEntries (flat : Document) :
    Dictionary.get? (.text field) (named (m.storedEntries flat)) =
      some (m.storedIdentity (flat.valueOf m.identity)) := by
  have hdistinct : (m.storedEntries flat).Pairwise fun e f => e.1 ≠ f.1 :=
    List.pairwise_map.mpr (List.pairwise_map.mpr h.distinct)
  exact get?_named hdistinct (h.identity_mem_storedEntries flat)

omit h in
theorem mem_fields_of_storedEntries {flat : Document} {e : String × Value} (he : e ∈ m.storedEntries flat) :
    ∃ f ∈ m.fields, f.2 = e.1 := by
  obtain ⟨entry, hentry, rfl⟩ := List.mem_map.mp he
  obtain ⟨f, hf, rfl⟩ := mem_entries.mp hentry
  exact ⟨f, hf, rfl⟩

/-- The document that is inserted for an entity stores its identity. -/
theorem stored?_expanded (e : GivenEntity m) :
    ∃ d, expandFields (named (m.storedEntries e.flat)) = .ok d ∧
      d.stored? field = some (m.storedIdentity (e.flat.valueOf m.identity)) := by
  have hcopy : ∀ f ∈ m.storedEntries e.flat, Expand.IsCopyable f.2 := by
    intro f hf
    obtain ⟨entry, hentry, rfl⟩ := List.mem_map.mp hf
    have hvalue := isCopyable_entries e.flattens entry hentry
    change Expand.IsCopyable (if _ then _ else _)
    split
    · exact Expand.isCopyable_native hvalue
    · exact hvalue
  obtain ⟨d, hd, hset, _⟩ := Expand.expandFields_named (h.storedEntries_apart e.flat) hcopy
  exact ⟨d, hd, (hset _ (h.identity_mem_storedEntries e.flat)).1⟩

/-- So does the document that an update inserts for want of one, which holds nothing in the native field
that was not there before. -/
theorem stored?_upserted (flat : Document) {w : Value} (hw : w.isAtom = true) :
    ∃ d, Collection.upserted? [(.text field, w)]
        (settingFields (updatable field (named (m.storedEntries flat)))) = some d ∧
      d.stored? field = some w ∧ (field ≠ nativeField → d.HoldsNoNative) := by
  have hone : [(field, w)].Pairwise fun f g => Path.Apart f.1 g.1 := List.pairwise_singleton _ _
  obtain ⟨d, hd, hset, hkept⟩ := setFields_named hone fun f _ => accepts_nil f.1
  have hchanged {f : String × Value} (hf : f ∈ (m.storedEntries flat).filter
      fun e => !(e.1 == field) && !(e.1 == nativeField)) :
      f.1 ≠ nativeField ∧ Path.Apart field f.1 := by
    obtain ⟨hmem, hne⟩ := List.mem_filter.mp hf
    obtain ⟨g, hg, hname⟩ := mem_fields_of_storedEntries hmem
    simp only [Bool.and_eq_true, Bool.not_eq_true', beq_eq_false_iff_ne] at hne
    rw [← hname] at hne ⊢
    exact ⟨hne.2, h.apart _ h.mem_fields g hg hne.1.symm⟩
  obtain ⟨e, he, _, hkept'⟩ := setFields_named ((h.storedEntries_apart flat).filter _) fun f hf =>
    (hkept f.1 (by simpa using (hchanged hf).2)).2 (accepts_nil f.1)
  refine ⟨e, ?_, ?_, fun hfield => ?_⟩
  · rw [Collection.upserted?, equalities_atom field hw, hd, updatable_named]
    exact (updated?_settingFields _ d).trans he
  · rw [(hkept' field fun f hf => (hchanged hf).2.symm).1]
    exact (hset (field, w) (by simp)).1
  · have hnone : HoldsNoNative [] := by simp [HoldsNoNative, Dictionary.get?]
    have hfirst := hnone.setFields (by simpa using hfield) hd
    exact hfirst.setFields (fun f hf => (hchanged hf).1) he

end IsConsistent

end Mapping

theorem Document.stored?_before {d : Document} {field : String} {w : Value} (id : Value)
    (hnone : Dictionary.get? (.text Mapping.nativeField) d = none) (h : d.stored? field = some w) :
    stored? field ((.text Mapping.nativeField, id) :: d) = some w := by
  rw [stored?] at h ⊢
  cases hpath : Path.ofText field with
  | nil => exact absurd hpath (Path.ofText_ne_nil field)
  | cons s p =>
    rw [hpath] at h
    have hs : Mapping.nativeField ≠ s := by
      rintro rfl
      simp [Path.keys, valueAt?, hnone] at h
    have hget : Dictionary.get? (.text s) ((.text Mapping.nativeField, id) :: d) =
        Dictionary.get? (.text s) d := by simp [Dictionary.get?, hs]
    rw [valueAt?_congr hget, h]

/-- A new document keeps what it stores, and gets a fresh identifier if it has no native field. -/
theorem Collection.stored?_insert (habits : EngineHabits) (c : Collection) {d : Document} {field : String}
    {w : Value} (h : d.stored? field = some w) :
    ∃ e, (c.insert habits d).2.documents = c.documents ++ [e] ∧ e.stored? field = some w ∧
      (d.HoldsNoNative → ∃ v, e.stored? Mapping.nativeField = some v ∧
        (v.isDocument = true ∨ v = .objectId (habits.freshId c.issued))) := by
  have hpath : Path.ofText Mapping.nativeField = [Mapping.nativeField] := by decide
  cases hid : Dictionary.get? (.text Mapping.nativeField) d with
  | some id =>
    refine ⟨d, by rw [insert, hid], h, fun hno => ⟨id, ?_, .inl (hno id hid)⟩⟩
    rw [Document.stored?, hpath, Document.valueAt?_one, hid]
  | none =>
    refine ⟨(.text Mapping.nativeField, .objectId (habits.freshId c.issued)) :: d, by rw [insert, hid]; rfl,
      Document.stored?_before _ hid h, fun _ => ⟨_, ?_, .inr rfl⟩⟩
    rw [Document.stored?, hpath, Document.valueAt?_one]
    simp [Dictionary.get?]

namespace GivenEntity

variable {m : Mapping} (e : GivenEntity m)

def stored : Value := m.storedIdentity (e.flat.valueOf m.identity)

def plan (field : String) : Repository.PlannedWrite :=
  let document := Document.named (m.storedEntries e.flat)
  .upsert field e.stored document (settingFields (Mapping.updatable field document))

theorem isAtom_stored : e.stored.isAtom = true := by
  have hatom := Value.isAtom_of_beq_given e.given e.holds
  rw [stored, Mapping.storedIdentity]
  split
  · exact Value.isAtom_native_of_isAtom hatom
  · exact hatom

theorem stored_beq_stored : (e.stored == e.stored) = true := by
  have hv := Value.beq_congr_given e.given e.holds (e.flat.valueOf m.identity)
  rw [e.holds] at hv
  have hatom := Value.isAtom_of_beq_given e.given e.holds
  rw [stored, Mapping.storedIdentity]
  split
  · rw [Value.native_of_isAtom hatom]
    cases ObjectId.ofValue? (e.flat.valueOf m.identity) with
    | none => exact hv
    | some o => exact (Value.beq_objectId _ o).mpr rfl
  · exact hv

variable {field : String} (h : m.IsConsistent field)
include h

/-- An identity that is missed is stored in the native field as the text that it is. -/
theorem stored_of_misses (hmisses : m.Misses e.id) :
    field = Mapping.nativeField ∧ ∃ s o, e.stored = .text s ∧ ObjectId.ofText? s = some o := by
  have hfield := h.field_of_misses hmisses
  obtain ⟨_, hgiven, s, o, hid, ho⟩ := hmisses
  have hholds := e.holds
  rw [hid] at hholds
  refine ⟨hfield, s, o, ?_, ho⟩
  rw [stored, Mapping.storedIdentity, hgiven, (Value.beq_text _ s).mp hholds]
  rfl

/-- What is stored in the native field is as it is asked for, unless it is missed. -/
theorem native_stored (hfield : field = Mapping.nativeField) (hfound : ¬m.Misses e.id) :
    e.stored.native = e.stored := by
  subst hfield
  cases ho : ObjectId.ofValue? e.id with
  | none =>
    have hnative := Value.native_of_isAtom (Value.isAtom_of_beq_given e.given e.holds)
    rw [Value.ofValue?_of_beq_given e.given e.holds, ho] at hnative
    rw [stored, Mapping.storedIdentity_of_none e.given e.holds ho, hnative]
    rfl
  | some o =>
    rw [stored, (h.storedIdentity_eq_iff e.given e.holds ho).mpr hfound]
    rfl

end GivenEntity

end EntityStore

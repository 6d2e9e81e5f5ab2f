import EntityStore.Proofs.Engine.Collection
import EntityStore.Proofs.ObjectId
import EntityStore.Proofs.Repository.StoredDocument
import EntityStore.Proofs.Value.Identity

namespace EntityStore

namespace Value

/-- Whether a value can be the identity of an entity that is not to be given one. -/
def isGiven : Value → Bool
  | .int _ | .objectId _ => true
  | .text s => s != ""
  | _ => false

variable {v id : Value} (hid : id.isGiven = true) (h : (v == id) = true)
include hid h

theorem eq_or_int_of_beq : v = id ∨ ∃ n b, id = .int n ∧ v.quantity? = some b ∧ b.same (.ofInt n) = true := by
  cases id with
  | int n =>
    obtain ⟨b, hb⟩ := exists_quantity_of_beq_int h
    exact .inr ⟨n, b, rfl, hb⟩
  | text s => exact .inl ((beq_text v s).mp h)
  | objectId o => exact .inl ((beq_objectId v o).mp h)
  | _ => simp [isGiven] at hid

theorem beq_congr_given (u : Value) : (u == v) = (u == id) := by
  rcases eq_or_int_of_beq hid h with rfl | ⟨n, b, rfl, _⟩
  · rfl
  · exact beq_congr_int h u

theorem isAtom_of_beq_given : v.isAtom = true := by
  rcases eq_or_int_of_beq hid h with rfl | ⟨n, b, rfl, _⟩
  · cases v <;> simp_all [isGiven, isAtom]
  · exact isAtom_of_beq_int h

theorem ofValue?_of_beq_given : ObjectId.ofValue? v = ObjectId.ofValue? id := by
  rcases eq_or_int_of_beq hid h with rfl | ⟨n, b, rfl, hb, _⟩
  · rfl
  · cases v <;> simp_all [quantity?, ObjectId.ofValue?]

omit h in
theorem isAtom_of_given : id.isAtom = true := by
  cases id <;> simp_all [isGiven, isAtom]

omit h in
theorem isNewIdentity_of_given : id.isNewIdentity = false := by
  cases id <;> simp_all [isGiven, isNewIdentity]

theorem isNewIdentity_of_beq_given : v.isNewIdentity = false := by
  rcases eq_or_int_of_beq hid h with rfl | ⟨n, b, rfl, hb, _⟩
  · cases v <;> simp_all [isGiven, isNewIdentity]
  · cases v <;> simp_all [quantity?, isNewIdentity]

end Value

namespace Mapping

/-- What is stored of the identity that a flat document holds. -/
def storedIdentity (m : Mapping) (v : Value) : Value := if m.generatesIds then v.native else v

/-- Whether an identity is stored as a text in the native field, but looked for as the native identifier
that it denotes. -/
def Misses (m : Mapping) (id : Value) : Prop :=
  m.identityField = .ok nativeField ∧ m.generatesIds = false ∧
    ∃ s o, id = .text s ∧ ObjectId.ofText? s = some o

variable {m : Mapping} {v id : Value} (hid : id.isGiven = true) (h : (v == id) = true)
include hid h

theorem storedIdentity_of_none (ho : ObjectId.ofValue? id = none) : m.storedIdentity v = v := by
  have hnative := Value.native_of_isAtom (Value.isAtom_of_beq_given hid h)
  rw [Value.ofValue?_of_beq_given hid h, ho] at hnative
  rw [storedIdentity, hnative]
  exact ite_self v

/-- An identity that denotes a native identifier is stored as that in the native field, unless it is
missed. -/
theorem IsConsistent.storedIdentity_eq_iff (hm : m.IsConsistent nativeField) {o : ObjectId}
    (ho : ObjectId.ofValue? id = some o) : m.storedIdentity v = .objectId o ↔ ¬m.Misses id := by
  have hnative := Value.native_of_isAtom (Value.isAtom_of_beq_given hid h)
  rw [Value.ofValue?_of_beq_given hid h, ho] at hnative
  cases hgenerates : m.generatesIds with
  | true => simp [storedIdentity, hgenerates, hnative, Misses]
  | false =>
    cases id with
    | objectId o' =>
      obtain rfl : o' = o := by simpa [ObjectId.ofValue?] using ho
      rw [(Value.beq_objectId v o').mp h]
      simp [storedIdentity, hgenerates, Misses]
    -- A literal that is not turned into what it denotes: the text differs from the identifier.
    | text s =>
      have hs : ObjectId.ofText? s = some o := ho
      rw [(Value.beq_text v s).mp h]
      simp [storedIdentity, hgenerates, Misses, hm.identityField_eq, hs]
    | _ => simp_all [Value.isGiven, ObjectId.ofValue?]

end Mapping

/-- The query for an identity that is stored in a field. -/
def queryForIdentity (field : String) (id : Value) : Query :=
  match ObjectId.ofValue? id with
  | none => .field field (.literally id)
  | some o =>
    if field = Mapping.nativeField then .field Mapping.nativeField (.literally (.objectId o))
    else .any [.field Mapping.nativeField (.literally (.objectId o)), .field field (.literally id)]

/-- Either of two fields that have to equal a value selects a document. -/
theorem Document.isSelected_either (f g : String) {v w : Value} (hv : v.isAtom = true) (hw : w.isAtom = true)
    (d : Document) : d.isSelected (Query.any [.field f (.literally v), .field g (.literally w)]).document =
      (((d.stored? f).getD .null == v) || ((d.stored? g).getD .null == w)) := by
  have hread : (Query.any [.field f (.literally v), .field g (.literally w)]).isReadable = true := by
    rw [Query.isReadable, Query.areReadable, Query.areReadable, Query.areReadable, Query.isReadable,
      Query.isReadable, Value.isListed_of_isAtom hv, Value.isListed_of_isAtom hw]
    rfl
  rw [isSelected, QueryDocument.holds_document _ _ hread]
  simp only [Query.holds, Query.anyHolds, Condition.document, Bool.or_false,
    d.fulfils_literally f (Value.isDocument_of_isAtom hv), d.fulfils_literally g (Value.isDocument_of_isAtom hw)]

section

variable {m : Mapping} {field : String} (hm : m.IsConsistent field)
include hm

theorem Mapping.IsConsistent.identityQuery_eq {entity id : Value} (tells : entity.id = .ok id) :
    identityQuery m entity = .ok (queryForIdentity field id) := by
  have hfield : (MappingArgument.mapping m).identityField = .ok field := hm.identityField_eq
  rw [identityQuery, tells, Outcome.ok_bind, hfield, Outcome.ok_bind, queryForIdentity]
  cases ObjectId.ofValue? id with
  | none => rfl
  | some o => by_cases hf : field = Mapping.nativeField <;> simp [hf]

theorem Mapping.IsConsistent.field_of_misses {id : Value} (hmisses : m.Misses id) : field = nativeField := by
  have hfield := hmisses.1
  rw [hm.identityField_eq] at hfield
  exact Except.ok.inj hfield

/-- The query for an identity selects the document that stores it, unless it is missed. -/
theorem Mapping.IsConsistent.isSelected_queryForIdentity {v id : Value} (hid : id.isGiven = true)
    (h : (v == id) = true) {d : Document} (hstored : d.stored? field = some (m.storedIdentity v)) :
    d.isSelected (queryForIdentity field id).document = true ↔ ¬m.Misses id := by
  have hatom := Value.isAtom_of_given hid
  cases ho : ObjectId.ofValue? id with
  | none =>
    have hno : ¬m.Misses id := by
      rintro ⟨_, _, s, o, rfl, hs⟩
      simp [ObjectId.ofValue?, hs] at ho
    simp only [queryForIdentity, ho]
    rw [Query.document, Condition.document, Document.isSelected_atom field hatom, hstored,
      storedIdentity_of_none hid h ho]
    simp [h, hno]
  | some o =>
    by_cases hf : field = nativeField
    · subst hf
      simp only [queryForIdentity, ho, if_true]
      rw [Query.document, Condition.document, Document.isSelected_atom _ rfl, hstored, Option.getD_some,
        Value.beq_objectId]
      exact hm.storedIdentity_eq_iff hid h ho
    · have hgiven : m.generatesIds = false := by
        cases hgenerates : m.generatesIds with
        | false => rfl
        | true => exact absurd (hm.native hgenerates) hf
      refine iff_of_true ?_ fun hmisses => hf (hm.field_of_misses hmisses)
      simp only [queryForIdentity, ho, if_neg hf]
      rw [Document.isSelected_either _ _ rfl hatom, hstored, storedIdentity, hgiven]
      simp [h]

end

end EntityStore

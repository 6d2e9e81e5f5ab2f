import EntityStore.Proofs.Filter.Arrangement
import EntityStore.Proofs.Outcome
import EntityStore.Proofs.Query.Reading
import EntityStore.Proofs.Value.Equality

namespace EntityStore

namespace Mapping

/-- Whether a logical field has a storage name. -/
def maps (m : Mapping) (name : String) : Bool :=
  name == nativeField || Dictionary.contains name m.fields

/-- The storage name of a logical field that has one. -/
def storageName (m : Mapping) (name : String) : String :=
  if name = nativeField then nativeField else (Dictionary.get? name m.fields).getD ""

theorem storageField_text (m : Mapping) (name : String) :
    m.storageField (.text name) =
      if m.maps name then .ok (m.storageName name) else .error (.unmappedField name m.collection) := by
  have hkey : (Value.text name).asKey = .ok (.text name) := rfl
  by_cases h : name = nativeField
  · simp [storageField, maps, storageName, h]
  · cases hget : Dictionary.get? name m.fields <;>
      simp [storageField, maps, storageName, h, hkey, hget, Dictionary.contains]

end Mapping

namespace Test

/-- The test with the values that are stored for those it compares with. -/
def converted : Test → Test
  | .equality holds v => .equality holds v.converted
  | .text part holds s => .text part holds s
  | .comparison c v => .comparison c v.converted
  | .range holds low high => .range holds low.converted high.converted
  | .membership holds items => .membership holds (items.map Value.converted)
  | .emptiness holds => .emptiness holds

/-- Whether a value that is tested against refuses to be copied when it is prepared. -/
def refusesPreparation (t : Test) : Bool := t.operand.refusesPreparation

theorem converted_opposite (t : Test) : t.opposite.converted = t.converted.opposite := by
  cases t <;> rfl

theorem kind_converted (t : Test) : t.converted.kind = t.kind := by
  cases t <;> rfl

theorem refusesPreparation_opposite (t : Test) : t.opposite.refusesPreparation = t.refusesPreparation := by
  rw [refusesPreparation, operand_opposite, refusesPreparation]

theorem mapM_prepared (items : List Value) :
    items.mapM Value.prepared =
      if Value.itemsRefusePreparation items then .error Value.viewRefusal
      else .ok (items.map Value.converted) := by
  induction items with
  | nil => rfl
  | cons v vs ih =>
    rw [List.mapM_cons, ih]
    cases hv : v.refusesPreparation <;> cases hvs : Value.itemsRefusePreparation vs <;>
      simp [Value.prepared, Value.itemsRefusePreparation, hv, hvs]

theorem prepared_eq (t : Test) :
    t.prepared = if t.refusesPreparation then .error Value.viewRefusal else .ok t.converted := by
  cases t with
  | equality holds v =>
    cases h : v.refusesPreparation <;>
      simp [prepared, refusesPreparation, operand, Value.prepared, h, converted]
  | text part holds s => rfl
  | comparison c v =>
    cases h : v.refusesPreparation <;>
      simp [prepared, refusesPreparation, operand, Value.prepared, h, converted]
  | range holds low high =>
    cases hl : low.refusesPreparation <;> cases hh : high.refusesPreparation <;>
      simp [prepared, refusesPreparation, operand, Value.prepared, Value.refusesPreparation,
        Value.itemsRefusePreparation, hl, hh, converted]
  | membership holds items =>
    rw [prepared, mapM_prepared]
    cases h : Value.itemsRefusePreparation items <;>
      simp [refusesPreparation, operand, Value.refusesPreparation, h, converted]
  | emptiness holds => rfl

end Test

namespace Predicate

/-- The query of a predicate that has one. -/
def queryIn (m : Mapping) (p : Predicate) : Query := p.test.converted.query (m.storageName p.field)

theorem query_eq (m : Mapping) (p : Predicate) (h : m.maps p.field = true) :
    p.query m = if p.test.refusesPreparation then .error Value.viewRefusal else .ok (p.queryIn m) := by
  have hfield : (MappingArgument.mapping m).storageField (.text p.field) = .ok (m.storageName p.field) := by
    rw [MappingArgument.storageField, Mapping.storageField_text, if_pos h]
  rw [query, hfield, Outcome.ok_bind, Test.prepared_eq]
  cases p.test.refusesPreparation <;> rfl

end Predicate

end EntityStore

import EntityStore.Document.Expand
import EntityStore.Document.Lookup
import EntityStore.Document.Normalize

namespace EntityStore.Document

/-- The value that a document stores under a dotted name. -/
def stored? (field : String) (d : Document) : Option Value := valueAt? (Path.ofText field).keys d

abbrev normalized (d : Document) : Document := Value.normalizedFields d

theorem get?_normalized (key : Value) (d : Document) :
    Dictionary.get? key d.normalized = (Dictionary.get? key d).map Value.normalized := by
  induction d with
  | nil => rfl
  | cons f d ih =>
    rw [normalized, Value.normalizedFields, Value.normalizedField, Dictionary.get?, Dictionary.get?]
    split
    · rfl
    · exact ih

theorem valueAt?_normalized (keys : KeyPath) (d : Document) :
    valueAt? keys d.normalized = (valueAt? keys d).map Value.normalized := by
  induction keys generalizing d with
  | nil => rfl
  | cons key keys ih =>
    rw [valueAt?, valueAt?, get?_normalized]
    cases hv : Dictionary.get? key d with
    | none => rfl
    | some v =>
      cases hkeys : keys.isEmpty with
      | true => rfl
      | false =>
        cases v with
        | document kind fields => exact ih fields
        | _ => rfl

/-- A document made plain stores plain values under the same names. -/
theorem stored?_normalized (field : String) (d : Document) :
    stored? field d.normalized = (stored? field d).map Value.normalized :=
  valueAt?_normalized _ d

end EntityStore.Document

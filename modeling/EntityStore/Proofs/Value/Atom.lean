import EntityStore.Document.Normalize
import EntityStore.Proofs.Query.Reading
import EntityStore.Proofs.Value.Coercion
import EntityStore.Proofs.Value.Equality

namespace EntityStore.Value

/-- Whether a value is a number, a text or a native identifier. -/
def isAtom : Value → Bool
  | .bool _ | .int _ | .float _ | .text _ | .objectId _ => true
  | _ => false

variable {v : Value}

theorem isAtom_of_beq_int {n : Int} (h : (v == .int n) = true) : v.isAtom = true := by
  obtain ⟨b, hb, _⟩ := exists_quantity_of_beq_int h
  cases v <;> simp_all [quantity?, isAtom]

theorem isAtom_of_beq_text {s : String} (h : (v == .text s) = true) : v.isAtom = true := by
  rw [(beq_text v s).mp h]
  rfl

variable (h : v.isAtom = true)
include h

theorem isDocument_of_isAtom : v.isDocument = false := by
  cases v <;> simp_all [isAtom, isDocument]

theorem isListed_of_isAtom : (Condition.literally v).isListed = false := by
  cases v <;> simp_all [isAtom, Condition.isListed]

theorem holdsView_of_isAtom : v.holdsView = false := by
  cases v <;> simp_all [isAtom, holdsView]

theorem refusesPreparation_of_isAtom : v.refusesPreparation = false := by
  cases v <;> simp_all [isAtom, refusesPreparation]

theorem converted_of_isAtom : v.converted = v := by
  cases v <;> simp_all [isAtom, converted]

theorem native_of_isAtom : v.native = ((ObjectId.ofValue? v).map Value.objectId).getD v := by
  refine native_of_ofValue? ?_ ?_
  all_goals
    rintro items rfl
    exact nomatch h

theorem isAtom_native_of_isAtom : v.native.isAtom = true := by
  rw [native_of_isAtom h]
  cases ObjectId.ofValue? v with
  | none => exact h
  | some o => rfl

/-- No document equals such a value. -/
theorem not_beq_of_isDocument {d : Value} (hd : d.isDocument = true) : (d == v) = false := by
  rw [Bool.eq_false_iff]
  intro heq
  cases v with
  | text s =>
    rw [(beq_text d s).mp heq] at hd
    simp [isDocument] at hd
  | objectId o =>
    rw [(beq_objectId d o).mp heq] at hd
    simp [isDocument] at hd
  | bool _ | int _ | float _ =>
    rw [beq_number rfl] at heq
    cases d <;> simp_all [isDocument, quantity?]
  | _ => simp [isAtom] at h

end EntityStore.Value

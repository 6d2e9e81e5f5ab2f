import EntityStore.Proofs.Number.Quantity
import EntityStore.Value.Equality

namespace EntityStore.Value

@[simp]
theorem text_beq_text (s t : String) : (Value.text s == .text t) = (s == t) := by
  rw [Bool.eq_iff_iff, beq_text, beq_iff_eq, Value.text.injEq]

theorem text_beq (s : String) (v : Value) : (Value.text s == v) = true ↔ v = .text s := by
  change sameIn false false (.text s) v = true ↔ _
  cases v with
  | text t =>
    change (Value.text s == .text t) = true ↔ _
    rw [text_beq_text, beq_iff_eq, Value.text.injEq]
    exact eq_comm
  | _ => simp [sameIn, sameAtom, quantity?]

/-- A number equals what is the same number. -/
theorem beq_number {v : Value} {b : Quantity} (hv : v.quantity? = some b) (u : Value) :
    (u == v) = (u.quantity?.map fun a => a.same b).getD false := by
  change sameIn false false u v = _
  cases v with
  | bool _ | int _ | float _ =>
    obtain rfl := Option.some.inj hv
    cases u with
    | document kind fields => cases kind <;> rfl
    | _ => rfl
  | _ => simp [quantity?] at hv

theorem exists_quantity_of_beq_int {v : Value} {n : Int} (h : (v == .int n) = true) :
    ∃ b, v.quantity? = some b ∧ b.same (.ofInt n) = true := by
  rw [beq_number rfl] at h
  cases hv : v.quantity? with
  | none => simp [hv] at h
  | some b => exact ⟨b, rfl, by simpa [hv] using h⟩

/-- What equals a number is equal to the same as it. -/
theorem beq_congr_int {v : Value} {n : Int} (h : (v == .int n) = true) (u : Value) :
    (u == v) = (u == .int n) := by
  obtain ⟨b, hv, hb⟩ := exists_quantity_of_beq_int h
  rw [beq_number hv, beq_number (v := .int n) rfl]
  cases u.quantity? with
  | none => rfl
  | some a => exact Quantity.same_congr hb a

theorem beq_congr_text {v : Value} {s : String} (h : (v == .text s) = true) (u : Value) :
    (u == v) = (u == .text s) := by
  rw [(beq_text v s).mp h]

@[simp]
theorem int_beq_int (a b : Int) : (Value.int a == .int b) = (a == b) := by
  rw [beq_number rfl]
  exact Quantity.same_ofInt a b

theorem beq_objectId (v : Value) (o : ObjectId) : (v == .objectId o) = true ↔ v = .objectId o := by
  change sameIn false false v (.objectId o) = true ↔ _
  cases v with
  | document kind fields => cases kind <;> simp [sameIn]
  | _ => simp [sameIn, sameAtom, quantity?, members?]

theorem objectId_beq (o : ObjectId) (v : Value) : (Value.objectId o == v) = true ↔ v = .objectId o := by
  change sameIn false false (.objectId o) v = true ↔ _
  cases v with
  | objectId p => simpa [sameIn, sameAtom, quantity?] using eq_comm
  | _ => simp [sameIn, sameAtom, quantity?]

end EntityStore.Value

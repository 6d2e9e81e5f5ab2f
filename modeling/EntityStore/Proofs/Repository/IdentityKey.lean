import EntityStore.Proofs.Value.Atom
import EntityStore.Proofs.Value.Identity
import EntityStore.Proofs.Value.Spelling

namespace EntityStore

/-- An identity that is given and denotes no native identifier. -/
inductive IdentityKey where
  | number (n : Int)
  | name (s : String) (given : s ≠ "") (isPlain : ObjectId.ofText? s = none)
  deriving DecidableEq

namespace IdentityKey

def value : IdentityKey → Value
  | .number n => .int n
  | .name s _ _ => .text s

variable {v : Value} {k l : IdentityKey}

theorem beq_congr (h : (v == k.value) = true) (u : Value) : (u == v) = (u == k.value) := by
  cases k with
  | number n => exact Value.beq_congr_int h u
  | name s _ _ => exact Value.beq_congr_text h u

theorem value_beq_value (k l : IdentityKey) : (k.value == l.value) = true ↔ k = l := by
  cases k with
  | number n =>
    cases l with
    | number m => simp [value]
    | name t _ _ => simp [value, Value.beq_text]
  | name s _ _ =>
    cases l with
    | number m =>
      rw [value, value, Value.beq_number rfl]
      simp [Value.quantity?]
    | name t _ _ => simp [value]

theorem eq_of_beq (hk : (v == k.value) = true) (hl : (v == l.value) = true) : k = l := by
  cases k with
  | name s given isPlain =>
    rw [(Value.beq_text v s).mp hk] at hl
    exact (value_beq_value (.name s given isPlain) l).mp hl
  | number n =>
    cases l with
    | name t _ _ =>
      rw [(Value.beq_text v t).mp hl, value, Value.beq_number rfl] at hk
      simp [Value.quantity?] at hk
    | number m =>
      obtain ⟨b, hb, hn⟩ := Value.exists_quantity_of_beq_int hk
      obtain ⟨b', hb', hm⟩ := Value.exists_quantity_of_beq_int hl
      obtain rfl := Option.some.inj (hb.symm.trans hb')
      have hsame := Quantity.same_trans (Quantity.same_comm b _ ▸ hn) hm
      rw [Quantity.same_ofInt, beq_iff_eq] at hsame
      rw [hsame]

theorem isAtom_of_beq (h : (v == k.value) = true) : v.isAtom = true := by
  cases k with
  | name s _ _ => exact Value.isAtom_of_beq_text h
  | number n => exact Value.isAtom_of_beq_int h

theorem normalized_of_beq (h : (v == k.value) = true) : v.normalized = v := by
  cases k with
  | name s _ _ =>
    rw [(Value.beq_text v s).mp h]
    rfl
  | number n =>
    obtain ⟨b, hb, _⟩ := Value.exists_quantity_of_beq_int h
    cases v <;> simp_all [Value.quantity?, Value.normalized]

theorem ofValue?_value (k : IdentityKey) : ObjectId.ofValue? k.value = none := by
  cases k with
  | number n => rfl
  | name s _ isPlain => exact isPlain

theorem isNewIdentity_value (k : IdentityKey) : k.value.isNewIdentity = false := by
  cases k with
  | number n => rfl
  | name s given _ => simpa [value, Value.isNewIdentity] using given

/-- Whether an identity can be told of: a number cannot that has too many digits. -/
def IsTold : IdentityKey → Prop
  | .number n => n.natAbs < 10 ^ IntegerText.mostDigits
  | .name _ _ _ => True

theorem isOk_spelled_value : k.value.spelled.isOk = true ↔ k.IsTold := by
  cases k with
  | number n => simp [value, IsTold]
  | name s _ _ => simp [value, IsTold]

theorem exists_display (h : k.IsTold) : ∃ shown, k.value.display = .ok shown := by
  cases k with
  | number n => exact Outcome.exists_of_isOk (isOk_spelled_value.mpr h)
  | name s _ _ => exact ⟨s, rfl⟩

theorem display_of_not_isTold (h : ¬k.IsTold) : k.value.display = .error (.tooLongToShow IntegerText.mostDigits) := by
  cases k with
  | number n =>
    have hspelled := Bool.eq_false_iff.mpr (mt isOk_spelled_value.mp h)
    exact Value.spelled_of_not_isOk hspelled
  | name s _ _ => exact absurd trivial h

end IdentityKey

end EntityStore

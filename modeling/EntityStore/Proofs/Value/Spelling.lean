import EntityStore.Proofs.Outcome
import EntityStore.Query.OfFilter
import Mathlib.Algebra.Group.Nat.Defs

namespace EntityStore

namespace IntegerText

theorem length_toString_le_iff (n : Nat) : (toString n).length ≤ mostDigits ↔ n < 10 ^ mostDigits :=
  Nat.length_repr_le_iff (by decide)

/-- An integer is shown if it does not have too many digits. -/
theorem isOk_shown (n : Int) : (shown n).isOk = decide (n.natAbs < 10 ^ mostDigits) := by
  rw [shown]
  split
  · next hlong => exact (decide_eq_false (mt (length_toString_le_iff _).mpr (Nat.not_le.mpr hlong))).symm
  · next hshort => exact (decide_eq_true ((length_toString_le_iff _).mp (Nat.not_lt.mp hshort))).symm

theorem shown_natCast (n : Nat) :
    shown n = if n < 10 ^ mostDigits then .ok (toString n) else .error (.tooLongToShow mostDigits) := by
  have hsign : ¬(n : Int) < 0 := Int.not_lt.mpr (Int.natCast_nonneg n)
  simp only [shown, Int.natAbs_natCast, if_neg hsign, ← length_toString_le_iff]
  split
  · next hlong => rw [if_neg (Nat.not_le.mpr hlong)]
  · next hshort => rw [if_pos (Nat.not_lt.mp hshort)]

theorem shown_error {n : Int} {e : Failure} (h : shown n = .error e) : e = .tooLongToShow mostDigits := by
  rw [shown] at h
  split at h
  · exact (Except.error.inj h).symm
  · exact absurd h (by simp)

end IntegerText

namespace Value

theorem isOk_spelledItems (vs : List Value) : (spelledItems vs).isOk = vs.all fun v => v.spelled.isOk := by
  induction vs with
  | nil => rfl
  | cons v vs ih =>
    rw [spelledItems, List.all_cons, ← ih]
    cases v.spelled with
    | error e => rfl
    | ok shown => cases spelledItems vs <;> rfl

theorem isOk_spelledFields (fs : List (Value × Value)) :
    (spelledFields fs).isOk = fs.all fun f => f.1.spelled.isOk && f.2.spelled.isOk := by
  induction fs with
  | nil => rfl
  | cons f fs ih =>
    rw [spelledFields, spelledField, List.all_cons, ← ih]
    cases f.1.spelled with
    | error e => rfl
    | ok key =>
      cases f.2.spelled with
      | error e => rfl
      | ok shown => cases spelledFields fs <;> rfl

theorem isOk_spelledAttributes (as : List (String × Value)) :
    (spelledAttributes as).isOk = as.all fun a => a.2.spelled.isOk := by
  induction as with
  | nil => rfl
  | cons a as ih =>
    rw [spelledAttributes, spelledAttribute, List.all_cons, ← ih]
    cases a.2.spelled with
    | error e => rfl
    | ok shown => cases spelledAttributes as <;> rfl

@[simp]
theorem isOk_spelled_list (items : List Value) :
    (spelled (.list items)).isOk = items.all fun v => v.spelled.isOk := by
  rw [spelled, ← isOk_spelledItems]
  cases spelledItems items <;> rfl

@[simp]
theorem isOk_spelled_tuple (items : List Value) :
    (spelled (.tuple items)).isOk = items.all fun v => v.spelled.isOk := by
  rw [spelled, ← isOk_spelledItems]
  cases spelledItems items <;> rfl

@[simp]
theorem isOk_spelled_set (items : List Value) :
    (spelled (.set items)).isOk = items.all fun v => v.spelled.isOk := by
  rw [spelled, ← isOk_spelledItems]
  cases spelledItems items <;> rfl

@[simp]
theorem isOk_spelled_frozenSet (items : List Value) :
    (spelled (.frozenSet items)).isOk = items.all fun v => v.spelled.isOk := by
  rw [spelled, ← isOk_spelledItems]
  cases spelledItems items <;> rfl

@[simp]
theorem isOk_spelled_document (kind : DocumentKind) (fields : List (Value × Value)) :
    (spelled (.document kind fields)).isOk = fields.all fun f => f.1.spelled.isOk && f.2.spelled.isOk := by
  rw [spelled, ← isOk_spelledFields]
  cases spelledFields fields <;> rfl

theorem isOk_spelled_record {kind : RecordKind} (h : kind ≠ .object) (attributes : List (String × Value))
    (identity : Identification Value) :
    (spelled (.record kind attributes identity)).isOk = attributes.all fun a => a.2.spelled.isOk := by
  rw [← isOk_spelledAttributes]
  cases kind with
  | object => exact absurd rfl h
  | model | data =>
    rw [spelled]
    cases spelledAttributes attributes <;> rfl

@[simp]
theorem isOk_spelled_int (n : Int) : (spelled (.int n)).isOk = decide (n.natAbs < 10 ^ IntegerText.mostDigits) :=
  IntegerText.isOk_shown n

@[simp]
theorem isOk_spelled_text (s : String) : (spelled (.text s)).isOk = true := rfl

@[simp]
theorem isOk_spelled_objectId (o : ObjectId) : (spelled (.objectId o)).isOk = true := rfl

@[simp]
theorem isOk_spelled_pattern (p : Pattern) : (spelled (.pattern p)).isOk = true := rfl

@[simp]
theorem isOk_spelled_bool (b : Bool) : (spelled (.bool b)).isOk = true := by
  cases b <;> rfl

mutual

/-- Nothing but an integer of too many digits keeps a value from being spelled. -/
theorem spelled_error : ∀ {v : Value} {e : Failure}, v.spelled = .error e → e = .tooLongToShow IntegerText.mostDigits
  | .int _, _ => IntegerText.shown_error
  | .list _, _ | .tuple _, _ | .set _, _ | .frozenSet _, _ => by
    intro h
    rw [spelled] at h
    rcases Outcome.bind_eq_error.mp h with hitems | ⟨_, _, h⟩
    · exact spelledItems_error hitems
    · exact absurd h (by simp)
  | .document _ _, _ => by
    intro h
    rw [spelled] at h
    rcases Outcome.bind_eq_error.mp h with hfields | ⟨_, _, h⟩
    · exact spelledFields_error hfields
    · exact absurd h (by simp)
  | .entityId _, _ => by
    intro h
    rw [spelled] at h
    rcases Outcome.bind_eq_error.mp h with hid | ⟨_, _, h⟩
    · exact spelled_error hid
    · exact absurd h (by simp)
  | .record .model _ _, _ | .record .data _ _, _ => by
    intro h
    rw [spelled] at h
    rcases Outcome.bind_eq_error.mp h with hattributes | ⟨_, _, h⟩
    · exact spelledAttributes_error hattributes
    · exact absurd h (by simp)
  | .bool b, _ => by cases b <;> simp [spelled]
  | .null, _ | .float _, _ | .text _, _ | .bytes _, _ | .timestamp _, _ | .date _, _ | .objectId _, _ | .decimal _, _
  | .pattern _, _ | .url _, _ | .direction _, _ | .record .object _ _, _ | .thing, _ | .recordType _, _ => by
    simp [spelled]
termination_by structural v => v

theorem spelledItems_error : ∀ {vs : List Value} {e : Failure}, spelledItems vs = .error e →
    e = .tooLongToShow IntegerText.mostDigits
  | [], _ => by simp [spelledItems]
  | v :: vs, _ => by
    intro h
    rw [spelledItems] at h
    rcases Outcome.bind_eq_error.mp h with hv | ⟨_, _, h⟩
    · exact spelled_error hv
    rcases Outcome.bind_eq_error.mp h with hvs | ⟨_, _, h⟩
    · exact spelledItems_error hvs
    · exact absurd h (by simp)
termination_by structural vs => vs

theorem spelledField_error : ∀ {f : Value × Value} {e : Failure}, spelledField f = .error e →
    e = .tooLongToShow IntegerText.mostDigits
  | (k, v), _ => by
    intro h
    rw [spelledField] at h
    rcases Outcome.bind_eq_error.mp h with hk | ⟨_, _, h⟩
    · exact spelled_error hk
    rcases Outcome.bind_eq_error.mp h with hv | ⟨_, _, h⟩
    · exact spelled_error hv
    · exact absurd h (by simp)
termination_by structural f => f

theorem spelledFields_error : ∀ {fs : List (Value × Value)} {e : Failure}, spelledFields fs = .error e →
    e = .tooLongToShow IntegerText.mostDigits
  | [], _ => by simp [spelledFields]
  | f :: fs, _ => by
    intro h
    rw [spelledFields] at h
    rcases Outcome.bind_eq_error.mp h with hf | ⟨_, _, h⟩
    · exact spelledField_error hf
    rcases Outcome.bind_eq_error.mp h with hfs | ⟨_, _, h⟩
    · exact spelledFields_error hfs
    · exact absurd h (by simp)
termination_by structural fs => fs

theorem spelledAttribute_error : ∀ {a : String × Value} {e : Failure}, spelledAttribute a = .error e →
    e = .tooLongToShow IntegerText.mostDigits
  | (_, v), _ => by
    intro h
    rw [spelledAttribute] at h
    rcases Outcome.bind_eq_error.mp h with hv | ⟨_, _, h⟩
    · exact spelled_error hv
    · exact absurd h (by simp)
termination_by structural a => a

theorem spelledAttributes_error : ∀ {as : List (String × Value)} {e : Failure}, spelledAttributes as = .error e →
    e = .tooLongToShow IntegerText.mostDigits
  | [], _ => by simp [spelledAttributes]
  | a :: as, _ => by
    intro h
    rw [spelledAttributes] at h
    rcases Outcome.bind_eq_error.mp h with ha | ⟨_, _, h⟩
    · exact spelledAttribute_error ha
    rcases Outcome.bind_eq_error.mp h with has | ⟨_, _, h⟩
    · exact spelledAttributes_error has
    · exact absurd h (by simp)
termination_by structural as => as

end

/-- What cannot be spelled fails for that reason. -/
theorem spelled_of_not_isOk {v : Value} (h : v.spelled.isOk = false) :
    v.spelled = .error (.tooLongToShow IntegerText.mostDigits) := by
  cases hv : v.spelled with
  | ok shown => exact absurd (hv ▸ h) (by simp [Except.isOk, Except.toBool])
  | error e => rw [spelled_error hv]

mutual

/-- What can be spelled still can once it is converted. -/
theorem isOk_spelled_converted : ∀ {v : Value}, v.spelled.isOk = true → v.converted.spelled.isOk = true
  | .document .plain fields, h | .document .ordered fields, h => by
    rw [isOk_spelled_document, List.all_eq_true] at h
    rw [converted, isOk_spelled_document, List.all_eq_true]
    exact forall_convertedFields h
  | .list items, h | .tuple items, h | .set items, h => by
    simp only [isOk_spelled_list, isOk_spelled_tuple, isOk_spelled_set, List.all_eq_true] at h
    simp only [converted, isOk_spelled_list, isOk_spelled_tuple, List.all_eq_true]
    exact forall_convertedItems h
  | .record .model attributes _, h | .record .data attributes _, h => by
    rw [isOk_spelled_record (by decide), List.all_eq_true] at h
    rw [converted, isOk_spelled_document, List.all_eq_true]
    exact forall_convertedAttributes h
  | .url s, _ => rfl
  | .document .readOnly _, h | .record .object _ _, h | .null, h | .bool _, h | .int _, h | .float _, h | .text _, h
  | .bytes _, h | .frozenSet _, h | .timestamp _, h | .date _, h | .objectId _, h | .decimal _, h | .pattern _, h
  | .direction _, h | .entityId _, h | .thing, h | .recordType _, h => h
termination_by structural v => v

theorem forall_convertedItems : ∀ {vs : List Value}, (∀ v ∈ vs, v.spelled.isOk = true) →
    ∀ v ∈ convertedItems vs, v.spelled.isOk = true
  | [], _ => by simp [convertedItems]
  | v :: vs, h => by
    rw [convertedItems, List.forall_mem_cons]
    exact ⟨isOk_spelled_converted (h v (by simp)), forall_convertedItems fun w hw => h w (by simp [hw])⟩
termination_by structural vs => vs

theorem isOk_spelled_convertedField : ∀ {f : Value × Value}, (f.1.spelled.isOk && f.2.spelled.isOk) = true →
    ((convertedField f).1.spelled.isOk && (convertedField f).2.spelled.isOk) = true
  | (k, v), h => by
    obtain ⟨hk, hv⟩ := Bool.and_eq_true_iff.mp h
    rw [convertedField, hk, isOk_spelled_converted hv]
    rfl
termination_by structural f => f

theorem forall_convertedFields : ∀ {fs : List (Value × Value)},
    (∀ f ∈ fs, (f.1.spelled.isOk && f.2.spelled.isOk) = true) →
      ∀ f ∈ convertedFields fs, (f.1.spelled.isOk && f.2.spelled.isOk) = true
  | [], _ => by simp [convertedFields]
  | f :: fs, h => by
    rw [convertedFields, List.forall_mem_cons]
    exact ⟨isOk_spelled_convertedField (h f (by simp)), forall_convertedFields fun g hg => h g (by simp [hg])⟩
termination_by structural fs => fs

theorem isOk_spelled_convertedAttribute : ∀ {a : String × Value}, a.2.spelled.isOk = true →
    ((convertedAttribute a).1.spelled.isOk && (convertedAttribute a).2.spelled.isOk) = true
  | (name, v), h => by
    rw [convertedAttribute, isOk_spelled_text, isOk_spelled_converted h]
    rfl
termination_by structural a => a

theorem forall_convertedAttributes : ∀ {as : List (String × Value)}, (∀ a ∈ as, a.2.spelled.isOk = true) →
    ∀ f ∈ convertedAttributes as, (f.1.spelled.isOk && f.2.spelled.isOk) = true
  | [], _ => by simp [convertedAttributes]
  | a :: as, h => by
    rw [convertedAttributes, List.forall_mem_cons]
    exact ⟨isOk_spelled_convertedAttribute (h a (by simp)), forall_convertedAttributes fun b hb => h b (by simp [hb])⟩
termination_by structural as => as

end

mutual

/-- Native identifiers are spelled, whatever literals they replace. -/
theorem isOk_spelled_native : ∀ {v : Value}, v.spelled.isOk = true → v.native.spelled.isOk = true
  | .list items, h | .tuple items, h => by
    simp only [isOk_spelled_list, isOk_spelled_tuple, List.all_eq_true] at h
    simp only [native, isOk_spelled_list, isOk_spelled_tuple, List.all_eq_true]
    exact forall_nativeItems h
  | .text s, h => by cases hs : ObjectId.ofText? s <;> simp [native, ObjectId.ofValue?, hs]
  | .bytes bs, h => by cases hbs : ObjectId.ofBytes? bs <;> simp [native, ObjectId.ofValue?, hbs, h]
  | .document _ _, h | .null, h | .bool _, h | .int _, h | .float _, h | .set _, h | .frozenSet _, h | .timestamp _, h
  | .date _, h | .objectId _, h | .decimal _, h | .pattern _, h | .url _, h | .direction _, h | .entityId _, h
  | .record _ _ _, h | .thing, h | .recordType _, h => h
termination_by structural v => v

theorem forall_nativeItems : ∀ {vs : List Value}, (∀ v ∈ vs, v.spelled.isOk = true) →
    ∀ v ∈ nativeItems vs, v.spelled.isOk = true
  | [], _ => by simp [nativeItems]
  | v :: vs, h => by
    rw [nativeItems, List.forall_mem_cons]
    exact ⟨isOk_spelled_native (h v (by simp)), forall_nativeItems fun w hw => h w (by simp [hw])⟩
termination_by structural vs => vs

end

theorem isOk_spelled_nativeFor (field : String) {v : Value} (h : v.spelled.isOk = true) :
    (v.nativeFor field).spelled.isOk = true := by
  rw [nativeFor]
  split
  · exact isOk_spelled_native h
  · exact h

end Value

end EntityStore

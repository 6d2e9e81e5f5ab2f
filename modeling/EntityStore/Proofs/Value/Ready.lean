import EntityStore.Proofs.Outcome
import EntityStore.Query.OfFilter

namespace EntityStore

namespace Value

mutual

/-- Whether documents, lists and tuples lead to no ordered document, set, address, model or data record in a value.
Keys are not gone into. -/
def isReady : Value → Bool
  | .document .plain fields => fieldsAreReady fields
  | .document .ordered _ => false
  | .list items => itemsAreReady items
  | .tuple items => itemsAreReady items
  | .set _ => false
  | .url _ => false
  | .record .model _ _ => false
  | .record .data _ _ => false
  | _ => true
termination_by structural v => v

def itemsAreReady : List Value → Bool
  | [] => true
  | v :: vs => isReady v && itemsAreReady vs
termination_by structural vs => vs

def fieldsAreReady : List (Value × Value) → Bool
  | [] => true
  | p :: fs => fieldIsReady p && fieldsAreReady fs
termination_by structural fs => fs

def fieldIsReady : Value × Value → Bool
  | (_, v) => isReady v
termination_by structural p => p

end

theorem itemsAreReady_iff (vs : List Value) : itemsAreReady vs = true ↔ ∀ v ∈ vs, v.isReady = true := by
  induction vs with
  | nil => simp [itemsAreReady]
  | cons v vs ih => simp [itemsAreReady, ih]

theorem fieldsAreReady_iff (fs : List (Value × Value)) : fieldsAreReady fs = true ↔ ∀ f ∈ fs, f.2.isReady = true := by
  induction fs with
  | nil => simp [fieldsAreReady]
  | cons f fs ih =>
    obtain ⟨key, v⟩ := f
    simp [fieldsAreReady, fieldIsReady, ih]

mutual

theorem isReady_converted : ∀ v : Value, v.converted.isReady = true
  | .document .plain fields => fieldsAreReady_converted fields
  | .document .ordered fields => fieldsAreReady_converted fields
  | .list items => itemsAreReady_converted items
  | .tuple items => itemsAreReady_converted items
  | .set items => itemsAreReady_converted items
  | .record .model attributes _ => fieldsAreReady_convertedAttributes attributes
  | .record .data attributes _ => fieldsAreReady_convertedAttributes attributes
  | .document .readOnly _ | .null | .bool _ | .int _ | .float _ | .text _ | .bytes _ | .frozenSet _ | .timestamp _
  | .date _ | .objectId _ | .decimal _ | .pattern _ | .url _ | .direction _ | .entityId _ | .record .object _ _
  | .thing | .recordType _ => rfl
termination_by structural v => v

theorem itemsAreReady_converted : ∀ vs : List Value, itemsAreReady (convertedItems vs) = true
  | [] => rfl
  | v :: vs => (Bool.and_eq_true _ _).mpr ⟨isReady_converted v, itemsAreReady_converted vs⟩
termination_by structural vs => vs

theorem fieldsAreReady_converted : ∀ fs : List (Value × Value), fieldsAreReady (convertedFields fs) = true
  | [] => rfl
  | p :: fs => (Bool.and_eq_true _ _).mpr ⟨fieldIsReady_converted p, fieldsAreReady_converted fs⟩
termination_by structural fs => fs

theorem fieldIsReady_converted : ∀ p : Value × Value, fieldIsReady (convertedField p) = true
  | (_, v) => isReady_converted v
termination_by structural p => p

theorem fieldsAreReady_convertedAttributes :
    ∀ as : List (String × Value), fieldsAreReady (convertedAttributes as) = true
  | [] => rfl
  | p :: as => (Bool.and_eq_true _ _).mpr ⟨fieldIsReady_convertedAttribute p, fieldsAreReady_convertedAttributes as⟩
termination_by structural as => as

theorem fieldIsReady_convertedAttribute : ∀ p : String × Value, fieldIsReady (convertedAttribute p) = true
  | (_, v) => isReady_converted v
termination_by structural p => p

end

theorem isReady_of_prepared {v w : Value} (h : v.prepared = .ok w) : w.isReady = true := by
  rw [prepared] at h
  split at h
  · exact nomatch h
  · rw [← Except.ok.inj h]
    exact isReady_converted v

mutual

theorem converted_of_isReady : ∀ v : Value, v.isReady = true → v.converted = v
  | .document .plain fields => fun h => by rw [converted, convertedFields_of_areReady fields h]
  | .list items => fun h => by rw [converted, convertedItems_of_areReady items h]
  | .tuple items => fun h => by rw [converted, convertedItems_of_areReady items h]
  | .document .readOnly _ | .null | .bool _ | .int _ | .float _ | .text _ | .bytes _ | .frozenSet _ | .timestamp _
  | .date _ | .objectId _ | .decimal _ | .pattern _ | .direction _ | .entityId _ | .record .object _ _ | .thing
  | .recordType _ => fun _ => rfl
  | .document .ordered _ | .set _ | .url _ | .record .model _ _ | .record .data _ _ => fun h => nomatch h
termination_by structural v => v

theorem convertedItems_of_areReady : ∀ vs : List Value, itemsAreReady vs = true → convertedItems vs = vs
  | [] => fun _ => rfl
  | v :: vs => fun h => by
    obtain ⟨hv, hvs⟩ := (Bool.and_eq_true _ _).mp h
    rw [convertedItems, converted_of_isReady v hv, convertedItems_of_areReady vs hvs]
termination_by structural vs => vs

theorem convertedFields_of_areReady :
    ∀ fs : List (Value × Value), fieldsAreReady fs = true → convertedFields fs = fs
  | [] => fun _ => rfl
  | p :: fs => fun h => by
    obtain ⟨hp, hfs⟩ := (Bool.and_eq_true _ _).mp h
    rw [convertedFields, convertedField_of_isReady p hp, convertedFields_of_areReady fs hfs]
termination_by structural fs => fs

theorem convertedField_of_isReady : ∀ p : Value × Value, fieldIsReady p = true → convertedField p = p
  | (_, v) => fun h => by rw [convertedField, converted_of_isReady v h]
termination_by structural p => p

end

mutual

theorem refusesPreparation_of_isReady : ∀ v : Value, v.isReady = true → v.refusesPreparation = false
  | .document .plain fields => fieldsRefusePreparation_of_areReady fields
  | .list items => itemsRefusePreparation_of_areReady items
  | .tuple items => itemsRefusePreparation_of_areReady items
  | .document .readOnly _ | .null | .bool _ | .int _ | .float _ | .text _ | .bytes _ | .frozenSet _ | .timestamp _
  | .date _ | .objectId _ | .decimal _ | .pattern _ | .direction _ | .entityId _ | .record .object _ _ | .thing
  | .recordType _ => fun _ => rfl
  | .document .ordered _ | .set _ | .url _ | .record .model _ _ | .record .data _ _ => fun h => nomatch h
termination_by structural v => v

theorem itemsRefusePreparation_of_areReady :
    ∀ vs : List Value, itemsAreReady vs = true → itemsRefusePreparation vs = false
  | [] => fun _ => rfl
  | v :: vs => fun h => by
    obtain ⟨hv, hvs⟩ := (Bool.and_eq_true _ _).mp h
    rw [itemsRefusePreparation, refusesPreparation_of_isReady v hv, itemsRefusePreparation_of_areReady vs hvs]
    rfl
termination_by structural vs => vs

theorem fieldsRefusePreparation_of_areReady :
    ∀ fs : List (Value × Value), fieldsAreReady fs = true → fieldsRefusePreparation fs = false
  | [] => fun _ => rfl
  | p :: fs => fun h => by
    obtain ⟨hp, hfs⟩ := (Bool.and_eq_true _ _).mp h
    rw [fieldsRefusePreparation, fieldRefusesPreparation_of_isReady p hp, fieldsRefusePreparation_of_areReady fs hfs]
    rfl
termination_by structural fs => fs

theorem fieldRefusesPreparation_of_isReady :
    ∀ p : Value × Value, fieldIsReady p = true → fieldRefusesPreparation p = false
  | (_, v) => refusesPreparation_of_isReady v
termination_by structural p => p

end

/-- The values that preparing keeps are those that are stored as they are. -/
theorem prepared_eq_self_iff (v : Value) : v.prepared = .ok v ↔ v.isReady = true := by
  refine ⟨isReady_of_prepared, fun h => ?_⟩
  rw [prepared, refusesPreparation_of_isReady v h, converted_of_isReady v h]
  rfl

mutual

/-- Native identifiers put in the place of their literals leave a value ready. -/
theorem isReady_native : ∀ v : Value, v.isReady = true → v.native.isReady = true
  | .list items => itemsAreReady_native items
  | .tuple items => itemsAreReady_native items
  | .text s => fun _ => by cases hs : ObjectId.ofText? s <;> simp [native, ObjectId.ofValue?, hs, isReady]
  | .bytes bs => fun _ => by cases hs : ObjectId.ofBytes? bs <;> simp [native, ObjectId.ofValue?, hs, isReady]
  | .document _ _ | .null | .bool _ | .int _ | .float _ | .set _ | .frozenSet _ | .timestamp _ | .date _
  | .objectId _ | .decimal _ | .pattern _ | .url _ | .direction _ | .entityId _ | .record _ _ _ | .thing
  | .recordType _ => fun h => h
termination_by structural v => v

theorem itemsAreReady_native : ∀ vs : List Value, itemsAreReady vs = true → itemsAreReady (nativeItems vs) = true
  | [] => fun _ => rfl
  | v :: vs => fun h => by
    obtain ⟨hv, hvs⟩ := (Bool.and_eq_true _ _).mp h
    exact (Bool.and_eq_true _ _).mpr ⟨isReady_native v hv, itemsAreReady_native vs hvs⟩
termination_by structural vs => vs

end

theorem isReady_nativeFor {v : Value} (field : String) (h : v.isReady = true) : (v.nativeFor field).isReady = true := by
  rw [nativeFor]
  split
  · exact isReady_native v h
  · exact h

end Value

/-- Whether all values that a document holds are stored as they are. -/
def Document.IsReady (d : Document) : Prop := ∀ f ∈ d, f.2.isReady = true

theorem Value.isReady_plain (d : Document) : (Value.plain d).isReady = true ↔ d.IsReady := fieldsAreReady_iff d

theorem Value.isReady_list (vs : List Value) : (Value.list vs).isReady = true ↔ ∀ v ∈ vs, v.isReady = true :=
  itemsAreReady_iff vs

theorem Value.isReady_single (name : String) (v : Value) : (Value.single name v).isReady = v.isReady := by
  simp [isReady, fieldsAreReady, fieldIsReady]

end EntityStore

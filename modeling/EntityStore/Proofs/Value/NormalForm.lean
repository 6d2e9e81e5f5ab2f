import EntityStore.Document.Normalize
import EntityStore.Proofs.Value.Ready

namespace EntityStore

namespace Value

/-- The part of a value at the end of some steps, each of which leads to one of the parts that stand directly in a
value, counted in their order. -/
def partAt? (parts : Value → List Value) : List Nat → Value → Option Value
  | [], v => some v
  | step :: steps, v => (parts v)[step]?.bind (partAt? parts steps)

/-- A conversion that keeps the order of what stands directly in each value keeps the places of all parts. -/
theorem partAt?_map {parts : Value → List Value} {convert : Value → Value}
    (h : ∀ v, parts (convert v) = (parts v).map convert) (steps : List Nat) (v : Value) :
    partAt? parts steps (convert v) = (partAt? parts steps v).map convert := by
  induction steps generalizing v with
  | nil => rfl
  | cons step steps ih =>
    rw [partAt?, partAt?, h, List.getElem?_map]
    cases (parts v)[step]? with
    | none => rfl
    | some u => exact ih u

section

variable {parts : Value → List Value} {convert : Value → Value} (h : ∀ v, parts (convert v) = (parts v).map convert)
include h

/-- If each value has some form once it is converted, then so has each part of a value, in its place. -/
theorem rel_partAt? {HasForm : Value → Value → Prop} (hform : ∀ v, HasForm v (convert v)) (steps : List Nat)
    (v : Value) : Option.Rel HasForm (partAt? parts steps v) (partAt? parts steps (convert v)) := by
  rw [partAt?_map h]
  cases partAt? parts steps v with
  | none => exact .none
  | some u => exact .some (hform u)

/-- What holds of all values that are converted holds of all parts of one. -/
theorem forall_partAt? {P : Value → Prop} (hconverted : ∀ v, P (convert v)) (steps : List Nat) (v u : Value)
    (hu : partAt? parts steps (convert v) = some u) : P u := by
  rw [partAt?_map h] at hu
  obtain ⟨part, _, rfl⟩ := Option.map_eq_some_iff.mp hu
  exact hconverted part

end

/-- The values that stand directly in one that is gone into as it is prepared for storage. -/
def partsToStore : Value → List Value
  | .document .readOnly _ | .record .object _ _ => []
  | .document _ fields => fields.map (·.2)
  | .list items | .tuple items | .set items => items
  | .record _ attributes _ => attributes.map (·.2)
  | _ => []

/-- Whether a value is of a kind that is stored as it is, whatever stands in it. -/
def IsStorable : Value → Prop
  | .document .ordered _ | .set _ | .url _ | .record .model _ _ | .record .data _ _ => False
  | _ => True

/-- Whether one value is of the form in which another one is stored, apart from what stands directly in both:
documents keep their keys and sequences their length, and all that is not converted is the same. -/
def IsStoredAs : Value → Value → Prop
  | .document .readOnly fields, w => w = .document .readOnly fields
  | .document _ fields, w => ∃ stored : Document, w = .plain stored ∧ stored.keys = Dictionary.keys fields
  | .list items, w => ∃ stored, w = .list stored ∧ stored.length = items.length
  | .tuple items, w => ∃ stored, w = .tuple stored ∧ stored.length = items.length
  | .set items, w => ∃ stored, w = .list stored ∧ stored.length = items.length
  | .record .object attributes identity, w => w = .record .object attributes identity
  | .record _ attributes _, w =>
    ∃ stored : Document, w = .plain stored ∧ stored.keys = attributes.map fun a => .text a.1
  | .url s, w => w = .text s
  | v, w => w = v

theorem partsToStore_converted (v : Value) : partsToStore v.converted = (partsToStore v).map converted := by
  cases v with
  | document kind fields => cases kind <;> simp [converted, partsToStore, convertedFields_eq_map]
  | record kind attributes identity => cases kind <;> simp [converted, partsToStore, convertedAttributes_eq_map]
  | list items | tuple items | set items => exact convertedItems_eq_map items
  | _ => rfl

theorem isStoredAs_converted (v : Value) : v.IsStoredAs v.converted := by
  cases v with
  | document kind fields =>
    have hkeys : Dictionary.keys (convertedFields fields) = Dictionary.keys fields := by
      simp [Dictionary.keys, convertedFields_eq_map]
    cases kind with
    | readOnly => rfl
    | plain | ordered => exact ⟨convertedFields fields, rfl, hkeys⟩
  | record kind attributes identity =>
    have hkeys : Dictionary.keys (convertedAttributes attributes) = attributes.map fun a => .text a.1 := by
      simp [Dictionary.keys, convertedAttributes_eq_map]
    cases kind with
    | object => rfl
    | model | data => exact ⟨convertedAttributes attributes, rfl, hkeys⟩
  | list items | tuple items | set items =>
    have hlength : (convertedItems items).length = items.length := by simp [convertedItems_eq_map]
    exact ⟨convertedItems items, rfl, hlength⟩
  | _ => rfl

theorem IsStoredAs.isStorable {v w : Value} (h : v.IsStoredAs w) : w.IsStorable := by
  cases v with
  | document kind fields =>
    cases kind with
    | readOnly =>
      obtain rfl : w = .document .readOnly fields := h
      trivial
    | plain | ordered =>
      obtain ⟨stored, rfl, _⟩ := h
      trivial
  | record kind attributes identity =>
    cases kind with
    | object =>
      obtain rfl : w = .record .object attributes identity := h
      trivial
    | model | data =>
      obtain ⟨stored, rfl, _⟩ := h
      trivial
  | list items | tuple items | set items =>
    obtain ⟨stored, rfl, _⟩ := h
    trivial
  | _ =>
    obtain rfl := h
    trivial

/-- What is prepared for storage holds, in the place of each part of the value that it was, the form in which that is
stored, and preparing it again changes nothing. -/
theorem prepared_normalForm {v w : Value} (h : v.prepared = .ok w) :
    (∀ steps u, partAt? partsToStore steps w = some u → u.IsStorable) ∧ w.prepared = .ok w ∧
      ∀ steps, Option.Rel IsStoredAs (partAt? partsToStore steps v) (partAt? partsToStore steps w) := by
  have hready : w.isReady = true := isReady_of_prepared h
  rw [prepared] at h
  split at h
  · cases h
  · obtain rfl := Except.ok.inj h
    refine ⟨?_, (prepared_eq_self_iff _).mpr hready, ?_⟩
    · intro steps u hu
      exact forall_partAt? partsToStore_converted (fun part => (isStoredAs_converted part).isStorable) steps v u hu
    · intro steps
      exact rel_partAt? partsToStore_converted isStoredAs_converted steps v

/-- A visit of a person, whose links are a set of addresses, to a place. -/
def visit : Value :=
  .record .data
    [("who", .record .model [("name", .text "Ken"), ("links", .set [.url "https://a.example/"])] .absent),
      ("where", .tuple [.document .ordered [(.text "city", .text "Oslo")], .list [.set []]])] .absent

/-- The visit as it is stored. -/
def storedVisit : Value :=
  .plain [
    (.text "who", .plain [(.text "name", .text "Ken"), (.text "links", .list [.text "https://a.example/"])]),
    (.text "where", .tuple [.plain [(.text "city", .text "Oslo")], .list [.list []]])]

theorem prepared_normalForm_visit :
    visit.prepared = .ok storedVisit ∧
      (∀ steps u, partAt? partsToStore steps storedVisit = some u → u.IsStorable) ∧
      storedVisit.prepared = .ok storedVisit ∧
      ∀ steps, Option.Rel IsStoredAs (partAt? partsToStore steps visit) (partAt? partsToStore steps storedVisit) := by
  have hprepared : visit.prepared = .ok storedVisit := rfl
  exact ⟨hprepared, prepared_normalForm hprepared⟩

/-- The values that stand directly in one that is gone into as it is made plain. -/
def partsToRead : Value → List Value
  | .document _ fields => fields.map (·.2)
  | .list items | .tuple items => items
  | _ => []

/-- Whether a value is of a kind that is read as it is, whatever stands in it. -/
def IsPlain : Value → Prop
  | .document kind _ => kind = .plain
  | .timestamp t => t.isNaive = false
  | .tuple _ | .objectId _ => False
  | _ => True

/-- Whether one value is of the form in which another one is read, apart from what stands directly in both: documents
keep their keys and sequences their length, and all that is not made plain is the same. -/
def IsReadAs : Value → Value → Prop
  | .document _ fields, w => ∃ read : Document, w = .plain read ∧ read.keys = Dictionary.keys fields
  | .list items, w | .tuple items, w => ∃ read, w = .list read ∧ read.length = items.length
  | .objectId o, w => w = .text o.display
  | .timestamp t, w => w = .timestamp (if t.isNaive then { t with offset := some 0 } else t)
  | v, w => w = v

theorem partsToRead_normalized (v : Value) : partsToRead v.normalized = (partsToRead v).map normalized := by
  cases v with
  | document kind fields => simp [normalized, partsToRead, normalizedFields_eq_map]
  | list items | tuple items => exact normalizedItems_eq_map items
  | _ => rfl

theorem isReadAs_normalized (v : Value) : v.IsReadAs v.normalized := by
  cases v with
  | document kind fields =>
    have hkeys : Dictionary.keys (normalizedFields fields) = Dictionary.keys fields := by
      simp [Dictionary.keys, normalizedFields_eq_map]
    exact ⟨normalizedFields fields, rfl, hkeys⟩
  | list items | tuple items =>
    have hlength : (normalizedItems items).length = items.length := by simp [normalizedItems_eq_map]
    exact ⟨normalizedItems items, rfl, hlength⟩
  | timestamp t =>
    obtain ⟨date, hour, minute, second, microsecond, offset⟩ := t
    cases offset <;> rfl
  | _ => rfl

theorem IsReadAs.isPlain {v w : Value} (h : v.IsReadAs w) : w.IsPlain := by
  cases v with
  | document kind fields =>
    obtain ⟨read, rfl, _⟩ := h
    rfl
  | list items | tuple items =>
    obtain ⟨read, rfl, _⟩ := h
    trivial
  | timestamp t =>
    obtain rfl := h
    cases hnaive : t.isNaive with
    | true => rfl
    | false => exact hnaive
  | _ =>
    obtain rfl := h
    trivial

mutual

theorem normalized_normalized : ∀ v : Value, v.normalized.normalized = v.normalized
  | .document _ fields => congrArg (Value.document .plain) (normalizedFields_normalizedFields fields)
  | .list items => congrArg Value.list (normalizedItems_normalizedItems items)
  | .tuple items => congrArg Value.list (normalizedItems_normalizedItems items)
  | .timestamp _ | .objectId _ | .null | .bool _ | .int _ | .float _ | .text _ | .bytes _ | .set _ | .frozenSet _
  | .date _ | .decimal _ | .pattern _ | .url _ | .direction _ | .entityId _ | .record _ _ _ | .thing
  | .recordType _ => rfl
termination_by structural v => v

theorem normalizedItems_normalizedItems :
    ∀ vs : List Value, normalizedItems (normalizedItems vs) = normalizedItems vs
  | [] => rfl
  | v :: vs => congrArg₂ List.cons (normalized_normalized v) (normalizedItems_normalizedItems vs)
termination_by structural vs => vs

theorem normalizedFields_normalizedFields :
    ∀ fs : List (Value × Value), normalizedFields (normalizedFields fs) = normalizedFields fs
  | [] => rfl
  | p :: fs => congrArg₂ List.cons (normalizedField_normalizedField p) (normalizedFields_normalizedFields fs)
termination_by structural fs => fs

theorem normalizedField_normalizedField :
    ∀ p : Value × Value, normalizedField (normalizedField p) = normalizedField p
  | (k, v) => congrArg (Prod.mk k) (normalized_normalized v)
termination_by structural p => p

end

/-- What is made plain as it is read holds, in the place of each part of the value that it was, the form in which that
is read, and making it plain again changes nothing. -/
theorem normalized_normalForm (v : Value) :
    (∀ steps u, partAt? partsToRead steps v.normalized = some u → u.IsPlain) ∧
      (∀ steps, Option.Rel IsReadAs (partAt? partsToRead steps v) (partAt? partsToRead steps v.normalized)) ∧
      v.normalized.normalized = v.normalized := by
  refine ⟨?_, ?_, normalized_normalized v⟩
  · intro steps u hu
    exact forall_partAt? partsToRead_normalized (fun part => (isReadAs_normalized part).isPlain) steps v u hu
  · intro steps
    exact rel_partAt? partsToRead_normalized isReadAs_normalized steps v

end Value

end EntityStore

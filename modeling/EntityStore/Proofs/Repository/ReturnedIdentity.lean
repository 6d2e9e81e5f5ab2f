import EntityStore.Proofs.Document.Stored
import EntityStore.Proofs.ObjectId
import EntityStore.Proofs.Repository.ReadYourWrites

namespace EntityStore

open Mapping Repository

/-- Whether blanks stand in the literal of a native identifier. -/
def Value.isSpaced : Value → Bool
  | .text s => s.toList.any Hex.isBlank
  | _ => false

namespace ObjectId

/-- The identifier that a literal denotes is of twelve bytes if and only if no blanks stand in the literal. -/
theorem length_bytes_iff {v : Value} {o : ObjectId} (ho : ofValue? v = some o) (hv : v ≠ .objectId o) :
    o.bytes.length = 12 ↔ v.isSpaced = false := by
  cases v with
  | objectId p =>
    obtain rfl := Option.some.inj ho
    exact absurd rfl hv
  | text s =>
    have hlength := length_of_ofText? ho
    have hspaced : (Value.text s).isSpaced = false ↔ s.toList.countP Hex.isBlank = 0 := by
      simp [Value.isSpaced, List.countP_eq_zero]
    rw [hspaced]
    omega
  | bytes bs =>
    rw [ofValue?, ofBytes?] at ho
    split at ho
    · next hlength =>
      obtain rfl := Option.some.inj ho
      exact iff_of_true hlength rfl
    · exact nomatch ho
  | _ => exact nomatch ho

theorem ofValue?_display {v : Value} {o : ObjectId} (ho : ofValue? v = some o) (hv : v ≠ .objectId o) :
    ofValue? (.text o.display) = if v.isSpaced then none else some o := by
  have hiff := length_bytes_iff ho hv
  cases hspaced : v.isSpaced with
  | false => exact ofText?_display (hiff.mpr hspaced)
  | true =>
    refine ofText?_display_of_ne fun hlength => ?_
    exact nomatch hspaced.symm.trans (hiff.mp hlength)

end ObjectId

/-- A document is returned with a text in place of the identifier that a literal denotes. If no blanks stand in the
literal, that text denotes the identifier, and the query for it asks for the identifier; otherwise it denotes none, and
the query asks for the text. -/
theorem identityQuery_returned {v : Value} {o : ObjectId} (ho : ObjectId.ofValue? v = some o) (hv : v ≠ .objectId o)
    {m : MappingArgument} (hfield : m.identityField = .ok nativeField) (kind : DocumentKind) {d : Document}
    (hd : Dictionary.get? (.text nativeField) d = some (.objectId o)) :
    ∃ returned, (Value.document kind d).normalized = .document .plain returned ∧
      Dictionary.get? (.text nativeField) returned = some (.text o.display) ∧
      ObjectId.ofValue? (.text o.display) = (if v.isSpaced then none else some o) ∧
      ∀ entity : Value, entity.id = .ok (.text o.display) → (identityQuery m entity).map Query.document =
        .ok (.document .plain [(.text nativeField, if v.isSpaced then .text o.display else .objectId o)]) := by
  have hreturned : Dictionary.get? (.text nativeField) d.normalized = some (.text o.display) := by
    rw [Document.get?_normalized, hd]
    rfl
  have hdenoted := ObjectId.ofValue?_display ho hv
  refine ⟨d.normalized, rfl, hreturned, hdenoted, fun entity tells => ?_⟩
  rw [identityQuery, tells, Outcome.ok_bind, hfield, Outcome.ok_bind, hdenoted]
  cases v.isSpaced with
  | false => rfl
  | true => rfl

/-- The identifier that a literal with blanks between its digits denotes. -/
def shortKey : ObjectId := ⟨[0x01, 0x23, 0x45, 0x67, 0x89, 0xab, 0xcd, 0xef]⟩

/-- A document that stores nothing but an identifier. -/
def identified (o : ObjectId) : Document := [(.text nativeField, .objectId o)]

/-- A literal in capitals is found again under the digits that it is returned with, one with blanks is not. -/
theorem identityQuery_returned_keys :
    (identityQuery keys (.entityId (.text "0123456789abcdef01234567"))).map Query.document =
        .ok (.document .plain [(.text "_id", .objectId nativeKey)]) ∧
      (identityQuery keys (.entityId (.text "0123456789abcdef"))).map Query.document =
        .ok (.document .plain [(.text "_id", .text "0123456789abcdef")]) := by
  have hcapitals : ObjectId.ofValue? (.text "0123456789ABCDEF01234567") = some nativeKey := by decide +kernel
  have hblanks : ObjectId.ofValue? (.text "01 23 45 67 89 AB CD EF ") = some shortKey := by decide +kernel
  have hkeys : (MappingArgument.mapping keys).identityField = .ok nativeField := rfl
  have hlong : nativeKey.display = "0123456789abcdef01234567" := by decide +kernel
  have hshort : shortKey.display = "0123456789abcdef" := by decide +kernel
  have hfound := identityQuery_returned hcapitals (by simp) hkeys .plain (d := identified nativeKey) rfl
  have hmissed := identityQuery_returned hblanks (by simp) hkeys .plain (d := identified shortKey) rfl
  obtain ⟨_, _, _, _, hfound⟩ := hfound
  obtain ⟨_, _, _, _, hmissed⟩ := hmissed
  rw [hlong] at hfound
  rw [hshort] at hmissed
  exact ⟨hfound (.entityId _) rfl, hmissed (.entityId _) rfl⟩

end EntityStore

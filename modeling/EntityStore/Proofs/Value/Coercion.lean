import EntityStore.Query.OfFilter
import Mathlib.Data.List.Forall2

namespace EntityStore.Value

/-- Whether a value stands for another: the identifier for a literal of it, a list for a list and a tuple for a tuple
of as many items that stand for those of it, and anything else for itself. -/
inductive IsCoerced : Value → Value → Prop
  | literal {v : Value} {o : ObjectId} (h : ObjectId.ofValue? v = some o) : IsCoerced v (.objectId o)
  | list {items coerced : List Value} (h : List.Forall₂ IsCoerced items coerced) :
      IsCoerced (.list items) (.list coerced)
  | tuple {items coerced : List Value} (h : List.Forall₂ IsCoerced items coerced) :
      IsCoerced (.tuple items) (.tuple coerced)
  | other {v : Value} (h : ObjectId.ofValue? v = none) (hlist : ∀ items, v ≠ .list items)
      (htuple : ∀ items, v ≠ .tuple items) : IsCoerced v v

mutual

/-- Whether a text or bytes that are the literal of a native identifier stand somewhere in lists and tuples. -/
def holdsLiteral : Value → Bool
  | .text s => (ObjectId.ofText? s).isSome
  | .bytes bs => (ObjectId.ofBytes? bs).isSome
  | .list items => itemsHoldLiteral items
  | .tuple items => itemsHoldLiteral items
  | _ => false
termination_by structural v => v

def itemsHoldLiteral : List Value → Bool
  | [] => false
  | v :: vs => holdsLiteral v || itemsHoldLiteral vs
termination_by structural vs => vs

end

theorem native_of_ofValue? {v : Value} (hlist : ∀ items, v ≠ .list items) (htuple : ∀ items, v ≠ .tuple items) :
    v.native = ((ObjectId.ofValue? v).map .objectId).getD v := by
  cases v with
  | list items => exact absurd rfl (hlist items)
  | tuple items => exact absurd rfl (htuple items)
  | text s => cases hs : ObjectId.ofText? s <;> simp [native, ObjectId.ofValue?, hs]
  | bytes bs => cases hbs : ObjectId.ofBytes? bs <;> simp [native, ObjectId.ofValue?, hbs]
  | _ => rfl

theorem isCoerced_native_of_ofValue? {v : Value} (hlist : ∀ items, v ≠ .list items)
    (htuple : ∀ items, v ≠ .tuple items) : v.IsCoerced v.native := by
  rw [native_of_ofValue? hlist htuple]
  cases h : ObjectId.ofValue? v with
  | some o => exact .literal h
  | none => exact .other h hlist htuple

mutual

theorem isCoerced_native : ∀ v : Value, v.IsCoerced v.native
  | .list items => .list (forall₂_nativeItems items)
  | .tuple items => .tuple (forall₂_nativeItems items)
  | .text _ | .bytes _ | .document _ _ | .null | .bool _ | .int _ | .float _ | .set _ | .frozenSet _ | .timestamp _
  | .date _ | .objectId _ | .decimal _ | .pattern _ | .url _ | .direction _ | .entityId _ | .record _ _ _ | .thing
  | .recordType _ => isCoerced_native_of_ofValue? nofun nofun
termination_by structural v => v

theorem forall₂_nativeItems : ∀ items : List Value, List.Forall₂ IsCoerced items (nativeItems items)
  | [] => .nil
  | v :: vs => .cons (isCoerced_native v) (forall₂_nativeItems vs)
termination_by structural vs => vs

end

mutual

theorem holdsLiteral_native : ∀ v : Value, v.native.holdsLiteral = false
  | .list items => itemsHoldLiteral_nativeItems items
  | .tuple items => itemsHoldLiteral_nativeItems items
  | .text s => by cases hs : ObjectId.ofText? s <;> simp [native, ObjectId.ofValue?, hs, holdsLiteral]
  | .bytes bs => by cases hbs : ObjectId.ofBytes? bs <;> simp [native, ObjectId.ofValue?, hbs, holdsLiteral]
  | .document _ _ | .null | .bool _ | .int _ | .float _ | .set _ | .frozenSet _ | .timestamp _ | .date _
  | .objectId _ | .decimal _ | .pattern _ | .url _ | .direction _ | .entityId _ | .record _ _ _ | .thing
  | .recordType _ => rfl
termination_by structural v => v

theorem itemsHoldLiteral_nativeItems : ∀ items : List Value, itemsHoldLiteral (nativeItems items) = false
  | [] => rfl
  | v :: vs => (Bool.or_eq_false_iff).mpr ⟨holdsLiteral_native v, itemsHoldLiteral_nativeItems vs⟩
termination_by structural vs => vs

end

theorem nativeItems_eq_map (items : List Value) : nativeItems items = items.map native := by
  induction items with
  | nil => rfl
  | cons v vs ih => rw [nativeItems, ih, List.map_cons]

theorem nativeFor_native (v : Value) : v.nativeFor Mapping.nativeField = v.native := if_pos rfl

theorem nativeFor_of_ne {field : String} (h : field ≠ Mapping.nativeField) (v : Value) : v.nativeFor field = v :=
  if_neg h

/-- The items of a list are made native as the list is. -/
theorem nativeFor_list (field : String) (items : List Value) :
    (Value.list items).nativeFor field = .list (items.map fun v => v.nativeFor field) := by
  by_cases h : field = Mapping.nativeField
  · subst h
    simp [nativeFor_native, native, nativeItems_eq_map]
  · simp [nativeFor_of_ne h]

end EntityStore.Value

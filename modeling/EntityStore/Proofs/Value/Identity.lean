import EntityStore.Proofs.Outcome
import EntityStore.Query.Basic
import EntityStore.Value.Display

namespace EntityStore.Value

theorem called_nil (a : Value) : ∃ e, a.called [] = .error e := by
  cases a <;> exact ⟨_, rfl⟩

/-- The ways of telling an identity. -/
theorem id_eq_ok {v i : Value} (h : v.id = .ok i) :
    v = .entityId i ∨ ∃ kind attributes identity, v = .record kind attributes identity ∧
      Dictionary.get? "id" attributes = none ∧
      (identity = .fixed i ∨
        ∃ name, identity = .byAttribute name ∧ Dictionary.get? name attributes = some i) := by
  cases v with
  | entityId id =>
    obtain rfl := Except.ok.inj h
    exact .inl rfl
  | record kind attributes identity =>
    refine .inr ⟨kind, attributes, identity, rfl, ?_⟩
    simp only [Value.id] at h
    cases hid : Dictionary.get? "id" attributes with
    | some a =>
      obtain ⟨e, he⟩ := called_nil a
      simp [hid, he] at h
    | none =>
      refine ⟨rfl, ?_⟩
      cases identity with
      | absent => simp [hid, attributeNamed, Value.attributes] at h
      | fixed id => exact .inl (by simpa [hid] using h)
      | byAttribute name =>
        cases hname : Dictionary.get? name attributes with
        | none => simp [hid, attributeNamed, Value.attributes, hname] at h
        | some a => exact .inr ⟨name, rfl, by simpa [hid, attributeNamed, Value.attributes, hname] using h⟩
  | _ => simp [id, callAttribute, attributeNamed, Value.attributes, Dictionary.get?] at h

theorem isIdentity_of_id {v i : Value} (h : v.id = .ok i) : v.isIdentity = true := by
  rcases id_eq_ok h with rfl | ⟨kind, attributes, identity, rfl, _, rfl | ⟨name, rfl, _⟩⟩ <;> rfl

end EntityStore.Value

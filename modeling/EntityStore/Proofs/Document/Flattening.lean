import EntityStore.Document.Flatten
import EntityStore.Proofs.Dictionary
import EntityStore.Proofs.Document.Expansion

namespace EntityStore

open Expand Flatten

/-- Whether flattening goes no further into a value. -/
def Flatten.IsLeaf : Value → Prop
  | .document .plain fields | .document .ordered fields => fields = []
  | _ => True

theorem Flatten.leaves_of_isLeaf {v : Value} (h : IsLeaf v) (keys : List Value) : leaves keys v = [(keys, v)] := by
  cases v with
  | document kind fields =>
    cases kind with
    | readOnly => rfl
    | plain | ordered =>
      obtain rfl : fields = [] := h
      rfl
  | _ => rfl

theorem Flatten.IsLeaf.isCopyable {v : Value} (h : IsLeaf v) : IsCopyable v := by
  cases v with
  | document kind fields =>
    cases kind with
    | readOnly => rfl
    | plain | ordered =>
      obtain rfl : fields = [] := h
      rfl
  | _ => rfl

mutual

theorem isLeaf_leaves (keys : List Value) : ∀ v : Value, ∀ l ∈ leaves keys v, IsLeaf l.2
  | .document .plain fields => by
    intro l hl
    rw [leaves] at hl
    split at hl
    · obtain rfl := List.mem_singleton.mp hl
      exact List.isEmpty_iff.mp ‹fields.isEmpty = true›
    · exact isLeaf_fieldLeaves keys fields l hl
  | .document .ordered fields => by
    intro l hl
    rw [leaves] at hl
    split at hl
    · obtain rfl := List.mem_singleton.mp hl
      exact List.isEmpty_iff.mp ‹fields.isEmpty = true›
    · exact isLeaf_fieldLeaves keys fields l hl
  | .document .readOnly _ | .null | .bool _ | .int _ | .float _ | .text _ | .bytes _ | .list _ | .tuple _
  | .set _ | .frozenSet _ | .timestamp _ | .date _ | .objectId _ | .decimal _ | .pattern _ | .url _
  | .direction _ | .entityId _ | .record _ _ _ | .thing | .recordType _ => by
    intro l hl
    obtain rfl := List.mem_singleton.mp hl
    trivial
termination_by structural v => v

theorem isLeaf_fieldLeaves (keys : List Value) :
    ∀ fs : List (Value × Value), ∀ l ∈ fieldLeaves keys fs, IsLeaf l.2
  | [] => by simp [fieldLeaves]
  | p :: fs => by
    intro l hl
    rcases List.mem_append.mp hl with hl | hl
    · exact isLeaf_fieldLeavesOf keys p l hl
    · exact isLeaf_fieldLeaves keys fs l hl
termination_by structural fs => fs

theorem isLeaf_fieldLeavesOf (keys : List Value) :
    ∀ p : Value × Value, ∀ l ∈ fieldLeavesOf keys p, IsLeaf l.2
  | (k, v) => isLeaf_leaves (keys ++ [k]) v
termination_by structural p => p

end

theorem isLeaf_of_flatten {entity : Value} {flat : Document} (h : flatten entity = .ok flat) :
    ∀ p ∈ flat, IsLeaf p.2 := by
  obtain ⟨fields, _, h⟩ := Outcome.bind_eq_ok.mp h
  obtain ⟨entries, hentries, h⟩ := Outcome.bind_eq_ok.mp h
  obtain rfl := Except.ok.inj h
  apply Dictionary.forall_ofList
  have hleaves : ∀ l ∈ fields.flatMap fun f => leaves [f.1] f.2, IsLeaf l.2 := by
    intro l hl
    obtain ⟨f, _, hl⟩ := List.mem_flatMap.mp hl
    exact isLeaf_leaves [f.1] f.2 l hl
  exact Outcome.mapM_forall hentries fun l p hl hp => by
    obtain ⟨name, _, hp⟩ := Outcome.bind_eq_ok.mp hp
    obtain rfl := Except.ok.inj hp
    exact hleaves l hl

end EntityStore

import EntityStore.Document.Expand
import EntityStore.Document.Flatten
import EntityStore.Proofs.Dictionary
import EntityStore.Proofs.Value.Ready

namespace EntityStore

open Value

namespace Document

variable {d e : Document} {v : Value}

theorem IsReady.nil : IsReady [] := List.forall_mem_nil _

theorem IsReady.insert (hd : d.IsReady) (hv : v.isReady = true) (key : Value) :
    IsReady (Dictionary.insert key v d) :=
  Dictionary.forall_insert (P := fun w : Value => w.isReady = true) hv hd

theorem IsReady.insertMany (hd : d.IsReady) (he : e.IsReady) : IsReady (Dictionary.insertMany d e) :=
  Dictionary.forall_insertMany (P := fun w : Value => w.isReady = true) hd he

theorem IsReady.get? (hd : d.IsReady) {key : Value} (h : Dictionary.get? key d = some v) : v.isReady = true := by
  obtain ⟨k, _, hmem⟩ := Dictionary.exists_mem_of_get? h
  exact hd _ hmem

end Document

namespace Flatten

mutual

theorem isReady_leaves (keys : List Value) :
    ∀ v : Value, v.isReady = true → ∀ l ∈ leaves keys v, l.2.isReady = true
  | .document .plain fields => fun h l hl => by
    rw [leaves] at hl
    split at hl
    · obtain rfl := List.mem_singleton.mp hl
      exact h
    · exact isReady_fieldLeaves keys fields h l hl
  | .document .ordered fields => fun h => absurd h Bool.false_ne_true
  | .document .readOnly _ | .null | .bool _ | .int _ | .float _ | .text _ | .bytes _ | .list _ | .tuple _
  | .set _ | .frozenSet _ | .timestamp _ | .date _ | .objectId _ | .decimal _ | .pattern _ | .url _
  | .direction _ | .entityId _ | .record _ _ _ | .thing | .recordType _ => fun h l hl => by
    obtain rfl := List.mem_singleton.mp hl
    exact h
termination_by structural v => v

theorem isReady_fieldLeaves (keys : List Value) :
    ∀ fs : List (Value × Value), fieldsAreReady fs = true → ∀ l ∈ fieldLeaves keys fs, l.2.isReady = true
  | [] => fun _ => List.forall_mem_nil _
  | p :: fs => fun h l hl => by
    obtain ⟨hp, hfs⟩ := (Bool.and_eq_true _ _).mp h
    rcases List.mem_append.mp hl with hl | hl
    · exact isReady_fieldLeavesOf keys p hp l hl
    · exact isReady_fieldLeaves keys fs hfs l hl
termination_by structural fs => fs

theorem isReady_fieldLeavesOf (keys : List Value) :
    ∀ p : Value × Value, fieldIsReady p = true → ∀ l ∈ fieldLeavesOf keys p, l.2.isReady = true
  | (k, v) => isReady_leaves (keys ++ [k]) v
termination_by structural p => p

end

theorem isReady_preparedAttributes {attributes : List (String × Value)} {fields : List (Value × Value)}
    (h : preparedAttributes attributes = .ok fields) : ∀ f ∈ fields, f.2.isReady = true := by
  induction attributes generalizing fields with
  | nil =>
    obtain rfl := Except.ok.inj h
    exact List.forall_mem_nil _
  | cons a attributes ih =>
    obtain ⟨v, hv, h⟩ := Outcome.bind_eq_ok.mp h
    obtain ⟨rest, hrest, h⟩ := Outcome.bind_eq_ok.mp h
    obtain rfl := Except.ok.inj h
    exact List.forall_mem_cons.mpr ⟨isReady_of_prepared hv, ih hrest⟩

theorem isReady_fieldsOfConverted {entity : Value} {fs d : Document} (hconverted : entity.converted = .plain fs)
    (h : (do
      match ← entity.prepared with
      | .document _ fields => pure fields
      | _ => pure []) = (.ok d : Except Failure Document)) : d.IsReady := by
  rw [prepared, hconverted] at h
  split at h
  · cases h
  · obtain rfl := Except.ok.inj h
    exact (isReady_plain fs).mp (hconverted ▸ isReady_converted entity)

theorem isReady_fields {entity : Value} {d : Document} (h : fields entity = .ok d) : d.IsReady := by
  cases entity with
  | document kind fs =>
    cases kind with
    | readOnly => exact nomatch h
    | plain | ordered => exact isReady_fieldsOfConverted rfl h
  | record kind attributes identity =>
    cases kind with
    | object =>
      obtain ⟨entries, hentries, h⟩ := Outcome.bind_eq_ok.mp h
      obtain rfl := Except.ok.inj h
      exact Document.IsReady.nil.insertMany (isReady_preparedAttributes hentries)
    | model | data => exact isReady_fieldsOfConverted rfl h
  | entityId id =>
    obtain ⟨v, hv, h⟩ := Outcome.bind_eq_ok.mp h
    obtain rfl := Except.ok.inj h
    exact List.forall_mem_singleton.mpr (isReady_of_prepared hv)
  | direction d =>
    obtain rfl := Except.ok.inj h
    simp [Document.IsReady, Value.isReady]
  | thing | recordType _ =>
    obtain rfl := Except.ok.inj h
    exact .nil
  | _ => exact nomatch h

end Flatten

theorem isReady_flatten {entity : Value} {flat : Document} (h : flatten entity = .ok flat) : flat.IsReady := by
  obtain ⟨fields, hfields, h⟩ := Outcome.bind_eq_ok.mp h
  obtain ⟨entries, hentries, h⟩ := Outcome.bind_eq_ok.mp h
  obtain rfl := Except.ok.inj h
  refine Document.IsReady.nil.insertMany ?_
  refine Outcome.mapM_forall hentries fun l p hl hp => ?_
  obtain ⟨name, _, hp⟩ := Outcome.bind_eq_ok.mp hp
  obtain rfl := Except.ok.inj hp
  obtain ⟨f, hf, hl⟩ := List.mem_flatMap.mp hl
  exact Flatten.isReady_leaves [f.1] f.2 (Flatten.isReady_fields hfields f hf) l hl

namespace Expand

variable {d e : Document} {v : Value}

theorem conflict_ne_ok (name : String) (part : Value) : within.conflict name part ≠ .ok d := by
  intro h
  obtain ⟨_, _, h⟩ := Outcome.bind_eq_ok.mp h
  exact nomatch h

theorem isReady_within {name : String} {parts : List Value} {change : Document → Except Failure Document}
    (hchange : ∀ d e, d.IsReady → change d = .ok e → e.IsReady) (hd : d.IsReady)
    (h : within name parts change d = .ok e) : e.IsReady := by
  induction parts generalizing d e with
  | nil => exact hchange d e hd h
  | cons part rest ih =>
    rw [within] at h
    split at h
    · obtain ⟨fields, hfields, h⟩ := Outcome.bind_eq_ok.mp h
      obtain rfl := Except.ok.inj h
      exact hd.insert ((isReady_plain fields).mpr (ih .nil hfields)) part
    · exact absurd h (conflict_ne_ok name part)
    · next kind fields hwritable hpart =>
      obtain ⟨changed, hchanged, h⟩ := Outcome.bind_eq_ok.mp h
      obtain rfl := Except.ok.inj h
      have hready := hd.get? hpart
      cases kind with
      | plain => exact hd.insert ((isReady_plain changed).mpr (ih ((isReady_plain fields).mp hready) hchanged)) part
      | ordered => exact absurd hready Bool.false_ne_true
      | readOnly => exact absurd rfl hwritable
    · exact absurd h (conflict_ne_ok name part)

theorem isReady_writable? (hv : v.isReady = true) {kind : DocumentKind} {fields : Document}
    (h : writable? v = some (kind, fields)) : kind = .plain ∧ fields.IsReady := by
  cases v with
  | document k fs =>
    cases k with
    | plain =>
      obtain ⟨rfl, rfl⟩ := Prod.mk.inj (Option.some.inj h)
      exact ⟨rfl, (isReady_plain fs).mp hv⟩
    | ordered => exact absurd hv Bool.false_ne_true
    | readOnly => exact nomatch h
  | _ => exact nomatch h

theorem isReady_setLeaf {name : String} {leaf : Value} (hv : v.isReady = true) (hd : d.IsReady)
    (h : setLeaf name leaf v d = .ok e) : e.IsReady := by
  rw [setLeaf] at h
  split at h
  · obtain ⟨w, hw, h⟩ := Outcome.bind_eq_ok.mp h
    obtain rfl := Except.ok.inj h
    rw [copied] at hw
    split at hw
    · exact nomatch hw
    · exact hd.insert (Except.ok.inj hw ▸ hv) leaf
  · next old hold =>
    split at h
    · next kind fields _ new hwritable hnew =>
      obtain rfl := Except.ok.inj h
      obtain ⟨rfl, hfields⟩ := isReady_writable? (hd.get? hold) hwritable
      obtain ⟨_, hnew⟩ := isReady_writable? hv hnew
      exact hd.insert ((isReady_plain _).mpr (hfields.insertMany hnew)) leaf
    · exact nomatch h

theorem isReady_setField {field : Value × Value} (hfield : field.2.isReady = true) (hd : d.IsReady)
    (h : setField d field = .ok e) : e.IsReady := by
  obtain ⟨keys, _, h⟩ := Outcome.bind_eq_ok.mp h
  obtain ⟨name, _, h⟩ := Outcome.bind_eq_ok.mp h
  exact isReady_within (fun _ _ hd h => isReady_setLeaf hfield hd h) hd h

end Expand

/-- Going into the names of a document leaves its values as they are. -/
theorem isReady_expandFields {fields d : Document} (hfields : fields.IsReady) (h : expandFields fields = .ok d) :
    d.IsReady := by
  have hset : ∀ start : Document, start.IsReady → fields.foldlM Expand.setField start = .ok d → d.IsReady := by
    clear h
    induction fields with
    | nil =>
      intro start hstart h
      obtain rfl := Except.ok.inj h
      exact hstart
    | cons f fields ih =>
      intro start hstart h
      obtain ⟨hf, hrest⟩ := List.forall_mem_cons.mp hfields
      rw [List.foldlM_cons] at h
      obtain ⟨next, hnext, h⟩ := Outcome.bind_eq_ok.mp h
      exact ih hrest next (Expand.isReady_setField hf hstart hnext) h
  exact hset [] .nil h

end EntityStore

import EntityStore.Document.Expand
import EntityStore.Document.Flatten
import EntityStore.ErrorKind
import EntityStore.Paging.Page
import EntityStore.Proofs.Dictionary
import EntityStore.Proofs.Value.Spelling
import EntityStore.Value.Item
import EntityStore.Value.Order

namespace EntityStore

/-- Whether a failure is of a kind that stands for what an operation is given: a field without a storage name,
what tells no identity, or too many fields. -/
def Failure.isRefusal (e : Failure) : Bool :=
  match e.kind? with
  | some .fieldMapping | some .typeContract | some .unsupportedOperation => true
  | _ => false

def NeverRefuses {α : Type} (x : Except Failure α) : Prop := ∀ e, x = .error e → e.isRefusal = false

namespace NeverRefuses

variable {α β : Type}

theorem ok (a : α) : NeverRefuses (.ok a) := fun _ h => absurd h (by simp)

theorem error {e : Failure} (h : e.isRefusal = false) : NeverRefuses (.error e : Except Failure α) := by
  intro f hf
  rwa [← Except.error.inj hf]

theorem bind {x : Except Failure α} {f : α → Except Failure β} (hx : NeverRefuses x)
    (hf : ∀ a, x = .ok a → NeverRefuses (f a)) : NeverRefuses (x >>= f) := by
  cases h : x with
  | error e => exact error (hx e h)
  | ok a => exact hf a h

theorem mapM {f : α → Except Failure β} {xs : List α} (h : ∀ x ∈ xs, NeverRefuses (f x)) :
    NeverRefuses (xs.mapM f) := by
  intro e he
  obtain ⟨x, hx, hfails⟩ := Outcome.exists_mem_of_mapM_error he
  exact h x hx e hfails

theorem foldlM {f : β → α → Except Failure β} (h : ∀ b a, NeverRefuses (f b a)) (xs : List α) (b : β) :
    NeverRefuses (xs.foldlM f b) := by
  induction xs generalizing b with
  | nil => exact ok b
  | cons x xs ih => exact bind (h b x) fun c _ => ih c

end NeverRefuses

open NeverRefuses

namespace Value

theorem neverRefuses_called (args : List Value) (v : Value) : NeverRefuses (v.called args) := by
  cases v with
  | recordType name =>
    match args with
    | [] => exact error rfl
    | [v] => exact ok _
    | _ :: _ :: _ => exact error rfl
  | _ => exact error rfl

theorem neverRefuses_attributeNamed (v : Value) (name : String) : NeverRefuses (v.attributeNamed name) := by
  rw [attributeNamed]
  split
  · exact ok _
  · exact error rfl

theorem neverRefuses_callAttribute (v : Value) (name : String) (args : List Value) :
    NeverRefuses (v.callAttribute name args) :=
  (neverRefuses_attributeNamed v name).bind fun a _ => neverRefuses_called args a

theorem neverRefuses_id (v : Value) : NeverRefuses v.id := by
  cases v with
  | entityId id => exact ok _
  | record kind attributes identity =>
    unfold id
    simp only
    split
    · exact neverRefuses_called [] _
    · cases identity with
      | absent => exact neverRefuses_attributeNamed _ _
      | fixed id => exact ok _
      | byAttribute name => exact neverRefuses_attributeNamed _ _
  | _ => exact neverRefuses_callAttribute _ _ _

theorem neverRefuses_asKey (v : Value) : NeverRefuses v.asKey := by
  rw [asKey]
  split
  · exact error rfl
  · exact ok _

theorem neverRefuses_elements (v : Value) : NeverRefuses v.elements := by
  cases v with
  | record kind attributes identity =>
    cases kind with
    | model => exact ok _
    | _ => exact error rfl
  | text _ | bytes _ | list _ | tuple _ | set _ | frozenSet _ | document _ _ => exact ok _
  | _ => exact error rfl

theorem neverRefuses_size (v : Value) : NeverRefuses v.size := by
  unfold size
  split
  · exact error rfl
  · split
    · exact ok _
    · exact error rfl

theorem neverRefuses_item (v key : Value) : NeverRefuses (v.item key) := by
  have hplace (sequence : SequenceKind) (items : List Value) : NeverRefuses (itemAt sequence items key) := by
    rw [itemAt]
    split
    · exact error rfl
    · next n _ =>
      split
      · exact error rfl
      · simp only
        generalize (if n < 0 then n + (items.length : Int) else n) = n
        split
        · exact error rfl
        · split
          · exact ok _
          · exact error (e := .outOfRange sequence) rfl
  have hfield (fields : Document) : NeverRefuses (fieldUnder fields key) := by
    refine (neverRefuses_asKey key).bind fun key _ => ?_
    split
    · exact ok _
    · exact error (e := .missingKey key.literal) rfl
  cases v with
  | document kind fields => exact hfield fields
  | list _ | tuple _ | text _ | bytes _ => exact hplace _ _
  | _ => exact error rfl

theorem neverRefuses_integer (v : Value) : NeverRefuses v.integer := by
  have hread (cs : List Char) (literal : String) : NeverRefuses (IntegerText.readChars cs literal) := by
    unfold IntegerText.readChars
    simp only
    split
    · exact error rfl
    · split
      · exact error rfl
      · split
        · exact error rfl
        · exact ok _
  cases v with
  | bool _ | int _ => exact ok _
  | float x => cases x <;> first | exact ok _ | exact error rfl
  | text s => exact hread _ _
  | bytes bs => exact hread _ _
  | _ => exact error rfl

theorem neverRefuses_spelled (v : Value) : NeverRefuses v.spelled := by
  intro e he
  rw [spelled_error he]
  rfl

theorem neverRefuses_recordDisplay (kind : RecordKind) (attributes : List (String × Value)) :
    NeverRefuses (recordDisplay kind attributes) := by
  have hattributes : NeverRefuses (spelledAttributes attributes) := by
    intro e he
    rw [spelledAttributes_error he]
    rfl
  cases kind with
  | model => exact hattributes.bind fun _ _ => ok _
  | data | object => exact neverRefuses_spelled _

mutual

theorem neverRefuses_display : ∀ v : Value, NeverRefuses v.display
  | .entityId id => by
    rw [display]
    exact neverRefuses_display id
  | .record kind attributes identity => by
    rw [display]
    cases h : identityDisplay kind (attributeDisplays attributes) identity with
    | none => exact neverRefuses_recordDisplay kind attributes
    | some shown =>
      simp only
      split
      · exact (neverRefuses_called [] _).bind fun id _ => neverRefuses_spelled id
      · exact neverRefuses_identityDisplay kind (neverRefuses_attributeDisplays attributes) identity shown h
  | .document .readOnly fields => by
    rw [display]
    refine NeverRefuses.bind ?_ fun _ _ => ok _
    intro e he
    rw [spelledFields_error he]
    rfl
  | .text _ | .timestamp _ | .date _ | .objectId _ | .decimal _ | .url _ | .direction _ => ok _
  | .document .plain _ | .document .ordered _ | .null | .bool _ | .int _ | .float _ | .bytes _ | .list _ | .tuple _
  | .set _ | .frozenSet _ | .pattern _ | .thing | .recordType _ => neverRefuses_spelled _
termination_by structural v => v

theorem neverRefuses_identityDisplay (kind : RecordKind) {attributes : List (String × Except Failure String)}
    (h : ∀ a ∈ attributes, NeverRefuses a.2) : ∀ (i : Identification Value) (shown : Except Failure String),
      identityDisplay kind attributes i = some shown → NeverRefuses shown
  | .absent => by
    intro shown hshown
    rw [identityDisplay] at hshown
    exact absurd hshown (by simp)
  | .fixed id => by
    intro shown hshown
    rw [identityDisplay] at hshown
    rw [← Option.some.inj hshown]
    exact neverRefuses_display id
  | .byAttribute name => by
    intro shown hshown
    rw [identityDisplay] at hshown
    rw [← Option.some.inj hshown]
    cases hget : Dictionary.get? name attributes with
    | none => exact error rfl
    | some a =>
      obtain ⟨key, _, hmem⟩ := Dictionary.exists_mem_of_get? hget
      exact h _ hmem
termination_by structural i => i

theorem neverRefuses_attributeDisplay : ∀ a : String × Value, NeverRefuses (attributeDisplay a).2
  | (_, v) => neverRefuses_display v
termination_by structural a => a

theorem neverRefuses_attributeDisplays :
    ∀ as : List (String × Value), ∀ a ∈ attributeDisplays as, NeverRefuses a.2
  | [] => by simp [attributeDisplays]
  | p :: as => by
    intro a ha
    rw [attributeDisplays] at ha
    rcases List.mem_cons.mp ha with rfl | ha
    · exact neverRefuses_attributeDisplay p
    · exact neverRefuses_attributeDisplays as a ha
termination_by structural as => as

end

theorem neverRefuses_sorted (d : Direction) (vs : List Value) : NeverRefuses (sorted d vs) := by
  have hkey (v : Value) : NeverRefuses (SortKey.ofValue v) := by
    rw [SortKey.ofValue]
    split
    · exact (neverRefuses_display v).bind fun _ _ => ok _
    · exact ok _
  refine (NeverRefuses.mapM fun v _ => ?_).bind fun _ _ => ok _
  exact (hkey v).bind fun _ _ => ok _

theorem neverRefuses_prepared (v : Value) : NeverRefuses v.prepared := by
  rw [prepared]
  split
  · exact error rfl
  · exact ok _

end Value

theorem neverRefuses_identityField (m : Mapping) : NeverRefuses m.identityField := by
  rw [Mapping.identityField]
  split
  · exact ok _
  · exact error rfl

theorem neverRefuses_identityQuery (m : Mapping) (entity : Value) : NeverRefuses (identityQuery m entity) := by
  refine (Value.neverRefuses_id entity).bind fun id _ => (neverRefuses_identityField m).bind fun field _ => ?_
  split
  · exact ok _
  · split
    · exact ok _
    · exact ok _

theorem neverRefuses_flatten (entity : Value) : NeverRefuses (flatten entity) := by
  have hname (keys : List Value) : NeverRefuses (Flatten.dottedName keys) := by
    refine NeverRefuses.foldlM (fun path key => ?_) keys ""
    exact (Value.neverRefuses_display key).bind fun _ _ => ok _
  have hattributes (attributes : List (String × Value)) : NeverRefuses (Flatten.preparedAttributes attributes) := by
    induction attributes with
    | nil => exact ok _
    | cons a rest ih =>
      exact (Value.neverRefuses_prepared a.2).bind fun _ _ => ih.bind fun _ _ => ok _
  have hfields : NeverRefuses (Flatten.fields entity) := by
    unfold Flatten.fields
    split
    iterate 4
      · refine (Value.neverRefuses_prepared _).bind fun v _ => ?_
        split <;> exact ok _
    · exact (hattributes _).bind fun _ _ => ok _
    · exact (Value.neverRefuses_prepared _).bind fun _ _ => ok _
    · exact ok _
    · exact error rfl
    · exact ok _
    · exact ok _
    · exact error rfl
  refine hfields.bind fun fields _ => (NeverRefuses.mapM fun leaf _ => ?_).bind fun _ _ => ok _
  exact (hname leaf.1).bind fun _ _ => ok _

theorem neverRefuses_expandFields (fields : Document) : NeverRefuses (expandFields fields) := by
  have hconflict (name : String) (part : Value) : NeverRefuses (Expand.within.conflict name part) :=
    (Value.neverRefuses_display part).bind fun _ _ => error rfl
  have hwithin (name : String) (keys : List Value) (change : Document → Except Failure Document)
      (hchange : ∀ d, NeverRefuses (change d)) (d : Document) : NeverRefuses (Expand.within name keys change d) := by
    induction keys generalizing d with
    | nil => exact hchange d
    | cons part rest ih =>
      rw [Expand.within]
      split
      · exact (ih []).bind fun _ _ => ok _
      · exact hconflict name part
      · exact (ih _).bind fun _ _ => ok _
      · exact hconflict name part
  have hleaf (name : String) (leaf v : Value) (d : Document) : NeverRefuses (Expand.setLeaf name leaf v d) := by
    rw [Expand.setLeaf]
    split
    · have hcopied : NeverRefuses (Expand.copied v) := by
        rw [Expand.copied]
        split
        · exact error rfl
        · exact ok _
      exact hcopied.bind fun _ _ => ok _
    · split
      · exact ok _
      · exact error rfl
  have hkeys (key : Value) : NeverRefuses (Expand.keysOf key) := by
    unfold Expand.keysOf
    split
    · exact ok _
    · exact ok _
    · exact error rfl
    · refine (Value.neverRefuses_attributeNamed _ _).bind fun split _ => ?_
      exact (Value.neverRefuses_called _ _).bind fun _ _ => error rfl
  refine NeverRefuses.foldlM (fun d field => ?_) fields []
  refine (hkeys field.1).bind fun keys _ => (Value.neverRefuses_display field.1).bind fun name _ => ?_
  exact hwithin name _ _ (hleaf name _ field.2) d

theorem neverRefuses_pageOfRequest {α : Type} (content : List α) (total : Value) (p : PageRequest) :
    NeverRefuses (Page.ofRequest content total p) := by
  have hceil (n : Int) : NeverRefuses (p.totalPages n) := by
    rw [PageRequest.totalPages, Quotient.ceil]
    split
    · exact error rfl
    · split
      · exact error rfl
      · exact ok _
  have hfloat (x : Binary64) : NeverRefuses (Quotient.ceilOfFloat x p.size) := by
    unfold Quotient.ceilOfFloat
    split
    · exact error rfl
    · split
      · exact error rfl
      · split
        · exact error rfl
        · exact error rfl
        · split
          · exact error rfl
          · exact ok _
  have hpages : NeverRefuses (p.pagesFor total) := by
    unfold PageRequest.pagesFor
    split
    · exact hceil _
    · exact hceil _
    · exact hfloat _
    · exact error rfl
  exact hpages.bind fun _ _ => ok _

theorem neverRefuses_shown (n : Int) : NeverRefuses (IntegerText.shown n) := by
  intro e he
  rw [IntegerText.shown_error he]
  rfl

end EntityStore

import EntityStore.Proofs.Document.Reaching
import EntityStore.Proofs.Repository.StoredDocument

namespace EntityStore

open Document Expand Flatten

namespace Value

/-- The value that a dotted name leads to in an entity, once that is ready for storage. -/
def attained? (entity : Value) (name : String) : Option Value :=
  entity.prepared.toOption.bind (reached? (Path.ofText name).keys)

/-- What is stored of a value under the name that leads to it. Of a document with fields nothing is. -/
def kept (v : Value) : Value :=
  match writable? v with
  | some (_, _ :: _) => .null
  | _ => v

/-- Whether an entity is a document, a data record or a model, in which all keys are segments of names. -/
structure IsNamedEntity (entity : Value) : Prop where
  isStructured : match entity with
    | .document kind _ => kind ≠ .readOnly
    | .record kind _ _ => kind ≠ .object
    | _ => False
  isNamed : ∀ w, entity.prepared = .ok w → w.IsNamed

variable {entity v : Value} {name : String}

theorem kept_of_isLeaf (h : IsLeaf v) : v.kept = v := by
  cases v with
  | document kind fields =>
    cases kind with
    | readOnly => rfl
    | plain | ordered =>
      obtain rfl : fields = [] := h
      rfl
  | _ => rfl

theorem kept_of_not_isLeaf (h : ¬IsLeaf v) : v.kept = .null := by
  cases v with
  | document kind fields =>
    cases kind with
    | readOnly => exact absurd trivial h
    | plain | ordered =>
      cases fields with
      | nil => exact absurd rfl h
      | cons f fields => rfl
  | _ => exact absurd trivial h

/-- Such an entity is ready for storage as a plain document, and that is flattened. -/
theorem IsNamedEntity.exists_fields (h : entity.IsNamedEntity) {w : Value} (hw : entity.prepared = .ok w) :
    ∃ g, w = .plain g ∧ Flatten.fields entity = .ok g := by
  have hprepared := hw
  rw [prepared] at hw
  split at hw
  · cases hw
  · obtain rfl := Except.ok.inj hw
    cases entity with
    | document kind fields =>
      cases kind with
      | readOnly => exact absurd rfl h.isStructured
      | plain | ordered =>
        refine ⟨convertedFields fields, rfl, ?_⟩
        rw [Flatten.fields, hprepared]
        rfl
    | record kind attributes identity =>
      cases kind with
      | object => exact absurd rfl h.isStructured
      | model | data =>
        refine ⟨convertedAttributes attributes, rfl, ?_⟩
        rw [Flatten.fields, hprepared]
        rfl
    | _ => exact h.isStructured.elim

/-- Flattening keeps a value that a name leads to under this name, unless it goes further into it. -/
theorem IsNamedEntity.exists_flat (h : entity.IsNamedEntity) (hv : entity.attained? name = some v) :
    ∃ flat, flatten entity = .ok flat ∧ flat.valueOf name = v.kept := by
  obtain ⟨w, hw, hreached⟩ := Option.bind_eq_some_iff.mp hv
  have hprepared : entity.prepared = .ok w := by
    cases hresult : entity.prepared with
    | error e => simp [hresult, Except.toOption] at hw
    | ok u => simpa [hresult, Except.toOption] using hw
  obtain ⟨g, rfl, hfields⟩ := h.exists_fields hprepared
  obtain ⟨es, rfl, hkeys, hdistinct, hvalues⟩ := (h.isNamed _ hprepared).exists_fields
  refine ⟨_, flatten_named hkeys hdistinct hvalues hfields, ?_⟩
  have hpaths := ofText_outline hkeys hvalues
  have hnames : ((Document.outline es).map fun l => (l.1.text, l.2)).Pairwise fun l k => l.1 ≠ k.1 :=
    List.pairwise_map.mpr ((apart_outline hkeys hdistinct hvalues).imp Path.Apart.ne)
  obtain ⟨p, hp⟩ := Path.exists_ofText name
  rw [hp] at hreached
  by_cases hleaf : IsLeaf v
  · have hmem := (Document.mem_outline_iff hdistinct hvalues).mpr ⟨hreached, hleaf⟩
    have hstored : (name, v) ∈ (Document.outline es).map fun l => (l.1.text, l.2) :=
      List.mem_map.mpr ⟨_, hmem, by rw [← hp, Path.text_ofText]⟩
    rw [valueOf, get?_named hnames hstored, kept_of_isLeaf hleaf]
    rfl
  · have hnone : Dictionary.get? (.text name) (named ((Document.outline es).map fun l => (l.1.text, l.2))) = none := by
      refine Option.eq_none_iff_forall_ne_some.mpr fun u hu => ?_
      obtain ⟨l, hl, heq⟩ := List.mem_map.mp (exists_of_get?_named hu)
      obtain ⟨hname, rfl⟩ := Prod.mk.inj heq
      have hpath : l.1 = Path.start name :: p := by rw [← hpaths l hl, hname, hp]
      have hmem : (Path.start name :: p, l.2) ∈ Document.outline es := hpath ▸ hl
      obtain ⟨hsame, hleaf'⟩ := (Document.mem_outline_iff hdistinct hvalues).mp hmem
      rw [hreached] at hsame
      obtain rfl := Option.some.inj hsame
      exact hleaf hleaf'
    rw [valueOf, hnone, kept_of_not_isLeaf hleaf]
    rfl

end Value

end EntityStore

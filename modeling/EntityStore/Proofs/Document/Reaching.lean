import EntityStore.Proofs.Document.RoundTrip

namespace EntityStore

open Document Expand Flatten

/-- The value at the end of some keys, if documents that can be written to lead to it. -/
def Value.reached? : KeyPath → Value → Option Value
  | [], v => some v
  | key :: keys, v => (writable? v).bind fun d => (Dictionary.get? key d.2).bind (reached? keys)

theorem Value.reached?_append (v : Value) (p q : KeyPath) : v.reached? (p ++ q) = (v.reached? p).bind (reached? q) := by
  induction p generalizing v with
  | nil => rfl
  | cons key p ih =>
    rw [List.cons_append, reached?, reached?, funext ih]
    simp only [Option.bind_assoc]

namespace Expand

variable {v w : Value} {d : Document} {q : KeyPath} {key : Value} {kind : DocumentKind}

theorem writable?_document (hkind : kind ≠ .readOnly) (d : Document) :
    writable? (.document kind d) = some (kind, d) := by
  cases kind with
  | readOnly => exact absurd rfl hkind
  | plain | ordered => rfl

theorem exists_of_writable? {fields : Document} (h : writable? v = some (kind, fields)) :
    v = .document kind fields ∧ kind ≠ .readOnly := by
  cases v with
  | document kind' fields' =>
    cases kind' with
    | readOnly => exact nomatch h
    | plain | ordered =>
      obtain ⟨rfl, rfl⟩ := Prod.mk.inj (Option.some.inj h)
      exact ⟨rfl, by decide⟩
  | _ => exact nomatch h

theorem reached?_document (hkind : kind ≠ .readOnly) (key : Value) (keys : KeyPath) (d : Document) :
    (Value.document kind d).reached? (key :: keys) = (Dictionary.get? key d).bind (Value.reached? keys) := by
  rw [Value.reached?, writable?_document hkind, Option.bind_some]

theorem isSome_of_reached? (h : v.reached? (key :: q) = some w) : (v.reached? [key]).isSome = true := by
  obtain ⟨d, hd, h⟩ := Option.bind_eq_some_iff.mp h
  obtain ⟨u, hu, -⟩ := Option.bind_eq_some_iff.mp h
  simp [Value.reached?, hd, hu]

/-- What leads on to a document is a document that can be written to. -/
theorem exists_document_of_reached? (hkind : kind ≠ .readOnly) (h : w.reached? q = some (.document kind d)) :
    ∃ kind' fields, w = .document kind' fields ∧ kind' ≠ .readOnly := by
  cases q with
  | nil =>
    obtain rfl := Option.some.inj h
    exact ⟨kind, d, rfl, hkind⟩
  | cons key q =>
    obtain ⟨⟨kind', fields⟩, hw, -⟩ := Option.bind_eq_some_iff.mp h
    obtain ⟨rfl, hkind'⟩ := exists_of_writable? hw
    exact ⟨kind', fields, rfl, hkind'⟩

end Expand

namespace Flatten

variable {v w : Value} {es : List (String × Value)} {p : Path} {s : String}

/-- Nothing is reached below a leaf. -/
theorem reached?_cons_of_isLeaf (h : IsLeaf v) (key : Value) (keys : KeyPath) : v.reached? (key :: keys) = none := by
  cases v with
  | document kind fields =>
    cases kind with
    | readOnly => rfl
    | plain | ordered =>
      obtain rfl : fields = [] := h
      rfl
  | _ => rfl

theorem mem_outline_of_isLeaf (h : IsLeaf v) : (p, w) ∈ v.outline ↔ v.reached? p.keys = some w ∧ IsLeaf w := by
  rw [outline_of_isLeaf h, List.mem_singleton, Prod.mk.injEq]
  constructor
  · rintro ⟨rfl, rfl⟩
    exact ⟨rfl, h⟩
  · rintro ⟨hreached, -⟩
    cases p with
    | nil => exact ⟨rfl, (Option.some.inj hreached).symm⟩
    | cons s p =>
      have hnone : v.reached? (Path.keys (s :: p)) = none := reached?_cons_of_isLeaf h _ _
      exact nomatch hnone.symm.trans hreached

/-- A leaf of some fields is a leaf of the value of the one that its path begins with. -/
theorem mem_outline_named (hdistinct : es.Pairwise fun e f => e.1 ≠ f.1)
    (h : ∀ e ∈ es, ∀ {w : Value} {p : Path}, (p, w) ∈ e.2.outline ↔ e.2.reached? p.keys = some w ∧ IsLeaf w) :
    (s :: p, w) ∈ Document.outline es ↔ (Value.plain (named es)).reached? (Path.keys (s :: p)) = some w ∧ IsLeaf w := by
  have hreached : (Value.plain (named es)).reached? (Path.keys (s :: p)) =
      (Dictionary.get? (.text s) (named es)).bind (Value.reached? p.keys) :=
    reached?_document (by decide) _ _ _
  rw [hreached, Option.bind_eq_some_iff]
  constructor
  · intro hmem
    obtain ⟨e, he, k, hk, heq⟩ := exists_of_mem_outline hmem
    obtain ⟨hpath, rfl⟩ := Prod.mk.inj heq
    obtain ⟨rfl, rfl⟩ := List.cons.inj hpath
    obtain ⟨hbelow, hleaf⟩ := (h e he).mp hk
    exact ⟨⟨e.2, get?_named hdistinct he, hbelow⟩, hleaf⟩
  · rintro ⟨⟨u, hu, hbelow⟩, hleaf⟩
    have he := exists_of_get?_named hu
    exact List.mem_flatMap.mpr ⟨_, he, List.mem_map.mpr ⟨(p, w), (h _ he).mpr ⟨hbelow, hleaf⟩, rfl⟩⟩

end Flatten

theorem Value.IsNamed.mem_outline_iff {v w : Value} {p : Path} (h : v.IsNamed) :
    (p, w) ∈ v.outline ↔ v.reached? p.keys = some w ∧ IsLeaf w := by
  induction h generalizing p w with
  | leaf h => exact mem_outline_of_isLeaf h
  | @fields es hkeys hdistinct hvalues ih =>
    cases es with
    | nil => exact mem_outline_of_isLeaf rfl
    | cons e es =>
      rw [outline_eq hvalues (List.cons_ne_nil e es)]
      cases p with
      | nil =>
        constructor
        · intro hmem
          obtain ⟨_, _, _, _, heq⟩ := exists_of_mem_outline hmem
          exact nomatch (Prod.mk.inj heq).1
        · rintro ⟨hroot, hleaf⟩
          obtain rfl := Option.some.inj hroot
          exact nomatch (show named (e :: es) = [] from hleaf)
      | cons s p => exact mem_outline_named hdistinct ih

/-- The leaves of some fields are the values that they lead to and that flattening goes no further into. -/
theorem Document.mem_outline_iff {es : List (String × Value)} {s : String} {p : Path} {w : Value}
    (hdistinct : es.Pairwise fun e f => e.1 ≠ f.1) (hvalues : ∀ e ∈ es, e.2.IsNamed) :
    (s :: p, w) ∈ Document.outline es ↔ (Value.plain (named es)).reached? (Path.keys (s :: p)) = some w ∧ IsLeaf w :=
  mem_outline_named hdistinct fun e he => (hvalues e he).mem_outline_iff

end EntityStore

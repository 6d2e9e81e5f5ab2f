import EntityStore.Proofs.Document.Leaves

namespace EntityStore

open Document Expand Flatten

/-- Whether a text can stand between the dots of a name. -/
def Path.IsSegment (s : String) : Prop := s ≠ "" ∧ '.' ∉ s.toList

instance (s : String) : Decidable (Path.IsSegment s) := inferInstanceAs (Decidable (s ≠ "" ∧ '.' ∉ s.toList))

/-- A value in which the keys of documents are segments of names, each of them once in its document, as far as
documents lead to documents. -/
inductive Value.IsNamed : Value → Prop
  | leaf {v : Value} (h : IsLeaf v) : IsNamed v
  | fields {es : List (String × Value)} (hkeys : ∀ e ∈ es, Path.IsSegment e.1)
      (hdistinct : es.Pairwise fun e f => e.1 ≠ f.1) (hvalues : ∀ e ∈ es, IsNamed e.2) : IsNamed (.plain (named es))

/-- The name that a key is. -/
def Flatten.nameOf : Value → String
  | .text s => s
  | _ => ""

/-- The leaves of a value, each with the path that leads to it. -/
def Value.outline (v : Value) : List (Path × Value) := (leaves [] v).map fun l => (l.1.map nameOf, l.2)

/-- The leaves of some fields, each with the path that leads to it. -/
def Document.outline (es : List (String × Value)) : List (Path × Value) :=
  es.flatMap fun e => e.2.outline.map fun l => (e.1 :: l.1, l.2)

/-- Sets values at the ends of paths, one after the other. -/
def Document.placeAll (ls : List (Path × Value)) (d : Document) : Option Document :=
  ls.foldlM (fun d l => d.place l.1 l.2) d

variable {v : Value} {es : List (String × Value)} {s : String} {ls : List (Path × Value)}

namespace Flatten

theorem map_nameOf_keys (p : Path) : p.keys.map nameOf = p := by
  rw [Path.keys, List.map_map]
  exact List.map_id p

theorem outline_of_isLeaf (h : IsLeaf v) : v.outline = [([], v)] := by
  rw [Value.outline, leaves_of_isLeaf h]
  rfl

/-- If the leaves of the values of some fields stand at the ends of paths, so do those of the fields. -/
theorem fieldLeaves_of_leaves (h : ∀ e ∈ es, ∀ keys, leaves keys e.2 = e.2.outline.map fun l => (keys ++ l.1.keys, l.2))
    (keys : List Value) :
    fieldLeaves keys (named es) = (Document.outline es).map fun l => (keys ++ l.1.keys, l.2) := by
  rw [fieldLeaves_eq_flatMap, named, List.flatMap_map, Document.outline, List.map_flatMap]
  refine List.flatMap_congr fun e he => ?_
  rw [h e he, List.map_map]
  refine List.map_congr_left fun l _ => ?_
  simp [Path.keys]

theorem outline_of_fieldLeaves (hne : es ≠ [])
    (h : fieldLeaves [] (named es) = (Document.outline es).map fun l => (l.1.keys, l.2)) :
    (Value.plain (named es)).outline = Document.outline es := by
  have hnamed : named es ≠ [] := by simpa using hne
  rw [Value.outline, leaves_document (by decide) hnamed, h, List.map_map]
  refine (List.map_congr_left fun l _ => ?_).trans (List.map_id _)
  simp [map_nameOf_keys]

end Flatten

namespace Value.IsNamed

theorem leaves_eq (h : v.IsNamed) (keys : List Value) :
    leaves keys v = v.outline.map fun l => (keys ++ l.1.keys, l.2) := by
  induction h generalizing keys with
  | leaf h =>
    rw [leaves_of_isLeaf h, outline_of_isLeaf h]
    simp [Path.keys]
  | @fields es hkeys hdistinct hvalues ih =>
    cases es with
    | nil => simp [Value.outline, leaves, Path.keys]
    | cons e es =>
      have hleaves := fieldLeaves_of_leaves ih
      have houtline := outline_of_fieldLeaves (List.cons_ne_nil e es) (hleaves [])
      rw [leaves_document (by decide) (by simp), hleaves, houtline]

theorem fieldLeaves_eq (h : ∀ e ∈ es, e.2.IsNamed) (keys : List Value) :
    fieldLeaves keys (named es) = (Document.outline es).map fun l => (keys ++ l.1.keys, l.2) :=
  fieldLeaves_of_leaves (fun e he => (h e he).leaves_eq) keys

theorem outline_eq (h : ∀ e ∈ es, e.2.IsNamed) (hne : es ≠ []) :
    (Value.plain (named es)).outline = Document.outline es :=
  outline_of_fieldLeaves hne (fieldLeaves_eq h [])

end Value.IsNamed

theorem Document.exists_of_mem_outline {l : Path × Value} (hl : l ∈ Document.outline es) :
    ∃ e ∈ es, ∃ k ∈ e.2.outline, l = (e.1 :: k.1, k.2) := by
  obtain ⟨e, he, hl⟩ := List.mem_flatMap.mp hl
  obtain ⟨k, hk, rfl⟩ := List.mem_map.mp hl
  exact ⟨e, he, k, hk, rfl⟩

theorem Document.isSegment_outline (hkeys : ∀ e ∈ es, Path.IsSegment e.1)
    (h : ∀ e ∈ es, ∀ l ∈ e.2.outline, ∀ s ∈ l.1, Path.IsSegment s) :
    ∀ l ∈ Document.outline es, ∀ s ∈ l.1, Path.IsSegment s := by
  intro l hl
  obtain ⟨e, he, k, hk, rfl⟩ := exists_of_mem_outline hl
  exact List.forall_mem_cons.mpr ⟨hkeys e he, h e he k hk⟩

/-- Whether neither of two paths leads to the other or to a place inside it. -/
def Path.Diverge (p q : Path) : Prop := ¬p <+: q ∧ ¬q <+: p

theorem Document.pairwise_outline (hdistinct : es.Pairwise fun e f => e.1 ≠ f.1)
    (h : ∀ e ∈ es, e.2.outline.Pairwise fun l k => Path.Diverge l.1 k.1) :
    (Document.outline es).Pairwise fun l k => Path.Diverge l.1 k.1 := by
  rw [Document.outline, List.pairwise_flatMap]
  refine ⟨fun e he => ?_, hdistinct.imp fun hne l hl k hk => ?_⟩
  · rw [List.pairwise_map]
    exact (h e he).imp fun hdiverge => by simpa [Path.Diverge, List.cons_prefix_cons] using hdiverge
  · obtain ⟨_, _, rfl⟩ := List.mem_map.mp hl
    obtain ⟨_, _, rfl⟩ := List.mem_map.mp hk
    simp [Path.Diverge, List.cons_prefix_cons, hne, hne.symm]

namespace Value.IsNamed

/-- The paths to the leaves are made of segments. -/
theorem isSegment_outline (h : v.IsNamed) : ∀ l ∈ v.outline, ∀ s ∈ l.1, Path.IsSegment s := by
  induction h with
  | leaf h =>
    rw [outline_of_isLeaf h]
    simp
  | @fields es hkeys hdistinct hvalues ih =>
    cases es with
    | nil => simp [Value.outline, leaves]
    | cons e es =>
      rw [outline_eq hvalues (List.cons_ne_nil e es)]
      exact Document.isSegment_outline hkeys ih

theorem pairwise_outline (h : v.IsNamed) : v.outline.Pairwise fun l k => Path.Diverge l.1 k.1 := by
  induction h with
  | leaf h =>
    rw [outline_of_isLeaf h]
    exact List.pairwise_singleton _ _
  | @fields es hkeys hdistinct hvalues ih =>
    cases es with
    | nil => exact List.pairwise_singleton _ _
    | cons e es =>
      rw [outline_eq hvalues (List.cons_ne_nil e es)]
      exact Document.pairwise_outline hdistinct ih

end Value.IsNamed

namespace Document

variable {pre d e : Document}

theorem insert_text_insert_text (s : String) (v w : Value) (d : Document) :
    Dictionary.insert (.text s) w (Dictionary.insert (.text s) v d) = Dictionary.insert (.text s) w d :=
  Dictionary.insert_insert (by simp) v w d

theorem placeAll_cons {l : Path × Value} :
    placeAll (l :: ls) d = some e ↔ ∃ first, d.place l.1 l.2 = some first ∧ placeAll ls first = some e := by
  rw [placeAll, List.foldlM_cons]
  exact Option.bind_eq_some_iff

theorem placeAll_append {ks : List (Path × Value)} {first : Document} (hls : placeAll ls d = some first)
    (hks : placeAll ks first = some e) : placeAll (ls ++ ks) d = some e := by
  rw [placeAll, List.foldlM_append]
  exact Option.bind_eq_some_iff.mpr ⟨first, hls, hks⟩

/-- What is set inside a nested document changes the document that holds it there, and nothing else. -/
theorem placeAll_below (hls : ∀ l ∈ ls, l.1 ≠ []) (h : placeAll ls d = some e) (pre : Document) (s : String) :
    placeAll (ls.map fun l => (s :: l.1, l.2)) (Dictionary.insert (.text s) (.plain d) pre) =
      some (Dictionary.insert (.text s) (.plain e) pre) := by
  induction ls generalizing d with
  | nil =>
    obtain rfl := Option.some.inj h
    rfl
  | cons l ls ih =>
    obtain ⟨p, v⟩ := l
    obtain ⟨hp, hinner⟩ := List.forall_mem_cons.mp hls
    obtain ⟨first, hfirst, hrest⟩ := placeAll_cons.mp h
    obtain ⟨t, p, rfl⟩ := List.exists_cons_of_ne_nil hp
    refine placeAll_cons.mpr ⟨Dictionary.insert (.text s) (.plain first) pre, ?_, ih hinner hrest⟩
    rw [place_cons]
    refine ⟨.plain, d, first, ?_, hfirst, insert_text_insert_text s _ _ pre⟩
    rw [get?_insert_text_self]
    rfl

/-- A nested document is made by the first thing that is set inside it. -/
theorem placeAll_below_absent (hls : ∀ l ∈ ls, l.1 ≠ []) (hne : ls ≠ []) (h : placeAll ls [] = some e)
    (hs : Dictionary.get? (.text s) pre = none) :
    placeAll (ls.map fun l => (s :: l.1, l.2)) pre = some (Dictionary.insert (.text s) (.plain e) pre) := by
  obtain ⟨⟨p, v⟩, rest, rfl⟩ := List.exists_cons_of_ne_nil hne
  obtain ⟨hp, hinner⟩ := List.forall_mem_cons.mp hls
  obtain ⟨first, hfirst, hrest⟩ := placeAll_cons.mp h
  obtain ⟨t, p, rfl⟩ := List.exists_cons_of_ne_nil hp
  have hplaced : place (s :: t :: p) v pre = some (Dictionary.insert (.text s) (.plain first) pre) := by
    rw [place_cons]
    refine ⟨.plain, [], first, ?_, hfirst, rfl⟩
    rw [hs]
    rfl
  exact placeAll_cons.mpr ⟨_, hplaced, placeAll_below hinner hrest pre s⟩

/-- Fields the leaves of which make them up are made up by their leaves one after the other. -/
theorem placeAll_outline (hdistinct : es.Pairwise fun e f => e.1 ≠ f.1)
    (h : ∀ e ∈ es, ∀ pre : Document, Dictionary.get? (.text e.1) pre = none →
      placeAll (e.2.outline.map fun l => (e.1 :: l.1, l.2)) pre = some (pre ++ [(.text e.1, e.2)]))
    (hpre : ∀ e ∈ es, Dictionary.get? (.text e.1) pre = none) :
    placeAll (Document.outline es) pre = some (pre ++ named es) := by
  induction es generalizing pre with
  | nil => simp [Document.outline, placeAll]
  | cons e es ih =>
    obtain ⟨he, hrest⟩ := List.pairwise_cons.mp hdistinct
    have hfree : ∀ f ∈ es, Dictionary.get? (.text f.1) (pre ++ [(.text e.1, e.2)]) = none := by
      intro f hf
      have hone : Dictionary.get? (.text f.1) [(Value.text e.1, e.2)] = none := by
        simp [Dictionary.get?, he f hf]
      exact Dictionary.get?_append_eq_none.mpr ⟨hpre f (by simp [hf]), hone⟩
    have hfirst := h e (by simp) pre (hpre e (by simp))
    have hothers := ih hrest (fun f hf => h f (by simp [hf])) hfree
    rw [List.append_assoc] at hothers
    exact placeAll_append hfirst hothers

end Document

/-- The leaves of a value that is not there yet make it up. -/
theorem Value.IsNamed.placeAll_outline (h : v.IsNamed) {pre : Document} (hs : Dictionary.get? (.text s) pre = none) :
    Document.placeAll (v.outline.map fun l => (s :: l.1, l.2)) pre = some (pre ++ [(.text s, v)]) := by
  rw [← Dictionary.insert_of_get?_eq_none hs]
  induction h generalizing s pre with
  | leaf h =>
    rw [outline_of_isLeaf h]
    rfl
  | @fields es hkeys hdistinct hvalues ih =>
    cases es with
    | nil => rfl
    | cons e es =>
      rw [outline_eq hvalues (List.cons_ne_nil e es)]
      have hbuilt : Document.placeAll (Document.outline (e :: es)) [] = some (named (e :: es)) := by
        refine Document.placeAll_outline hdistinct (fun f hf pre hpre => ?_) fun _ _ => rfl
        rw [← Dictionary.insert_of_get?_eq_none hpre]
        exact ih f hf hpre
      refine Document.placeAll_below_absent ?_ ?_ hbuilt hs
      · intro l hl
        obtain ⟨_, _, _, _, rfl⟩ := Document.exists_of_mem_outline hl
        exact List.cons_ne_nil _ _
      · intro hnil
        rw [hnil] at hbuilt
        exact absurd (Option.some.inj hbuilt) (by simp)

end EntityStore

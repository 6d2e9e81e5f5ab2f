import EntityStore.Proofs.Document.Outline
import EntityStore.Proofs.Document.Ready
import Mathlib.Data.List.Perm.Basic

namespace EntityStore

open Document Expand Flatten

/-- A path that begins with a name has one. -/
theorem Path.text_ne_empty {s : String} (hs : s ≠ "") (p : Path) : text (s :: p) ≠ "" := by
  intro h
  cases p with
  | nil => exact hs (by simpa [text, joinDots] using h)
  | cons t p =>
    rw [← List.singleton_append, text_append (by simp) (by simp)] at h
    simp at h

namespace Flatten

theorem foldlM_joined {s : String} (hs : s ≠ "") (p q : Path) :
    q.keys.foldlM joined (Path.text (s :: p)) = .ok (Path.text (s :: p ++ q)) := by
  induction q generalizing p with
  | nil => rw [List.append_nil]; rfl
  | cons t q ih =>
    have hjoined : joined (Path.text (s :: p)) (.text t) = .ok (Path.text (s :: (p ++ [t]))) := by
      have htext : Path.text (s :: p ++ [t]) = Path.text (s :: p) ++ "." ++ Path.text [t] :=
        Path.text_append (by simp) (by simp)
      have hone : Path.text [t] = t := by simp [Path.text, Path.joinDots]
      rw [← List.cons_append, htext, hone, joined, Value.display, Outcome.ok_bind, if_neg (Path.text_ne_empty hs p)]
      rfl
    have hkeys : Path.keys (t :: q) = .text t :: Path.keys q := rfl
    rw [hkeys, List.foldlM_cons, hjoined, Outcome.ok_bind, ih]
    simp

/-- The keys of a path are joined to its name. -/
theorem dottedName_keys {p : Path} (hne : p ≠ []) (h : ∀ s ∈ p, s ≠ "") : dottedName p.keys = .ok p.text := by
  obtain ⟨s, p, rfl⟩ := List.exists_cons_of_ne_nil hne
  have hfirst : joined "" (.text s) = .ok (Path.text [s]) := by
    simp [joined, Value.display, Path.text, Path.joinDots]
  have hkeys : Path.keys (s :: p) = .text s :: Path.keys p := rfl
  rw [dottedName, hkeys, List.foldlM_cons, hfirst, Outcome.ok_bind, foldlM_joined (h s (by simp))]
  rfl

end Flatten

/-- An entity is flattened to the leaves of its fields, if their names differ. -/
theorem flatten_of_fieldLeaves {entity : Value} {fields : Document} {ls : List (Path × Value)}
    (hfields : Flatten.fields entity = .ok fields)
    (hleaves : fieldLeaves [] fields = ls.map fun l => (l.1.keys, l.2))
    (hpaths : ∀ l ∈ ls, l.1 ≠ [] ∧ ∀ s ∈ l.1, s ≠ "") (hdistinct : ls.Pairwise fun l k => l.1.text ≠ k.1.text) :
    flatten entity = .ok (named (ls.map fun l => (l.1.text, l.2))) := by
  have hnames : (ls.map fun l => (l.1.keys, l.2)).mapM field = .ok (named (ls.map fun l => (l.1.text, l.2))) := by
    rw [Outcome.mapM_ok field fun l => (.text (Path.text (l.1.map nameOf)), l.2)]
    · simp [named, map_nameOf_keys]
    · intro l hl
      obtain ⟨k, hk, rfl⟩ := List.mem_map.mp hl
      rw [field, dottedName_keys (hpaths k hk).1 (hpaths k hk).2, map_nameOf_keys]
      rfl
  have hself : Dictionary.ofList (named (ls.map fun l => (l.1.text, l.2))) =
      named (ls.map fun l => (l.1.text, l.2)) := by
    refine Dictionary.ofList_eq_self ?_
    rw [List.pairwise_map, List.pairwise_map]
    exact hdistinct.imp fun hne => by simpa using hne
  have hall : (fields.flatMap fun f => leaves [f.1] f.2) = fieldLeaves [] fields :=
    (fieldLeaves_eq_flatMap [] fields).symm
  rw [flatten, hfields, Outcome.ok_bind, hall, hleaves]
  simp only [hnames, Outcome.ok_bind, hself]
  rfl

/-- The fields of a document are those that it has when it is prepared. -/
theorem Flatten.fields_of_prepared {kind : DocumentKind} (hkind : kind ≠ .readOnly) {fs g : Document}
    (h : (Value.document kind fs).prepared = .ok (.plain g)) : Flatten.fields (.document kind fs) = .ok g := by
  cases kind with
  | readOnly => exact absurd rfl hkind
  | plain | ordered =>
    rw [Flatten.fields, h]
    rfl

theorem Flatten.fields_document {kind : DocumentKind} (hkind : kind ≠ .readOnly) (fs : Document) :
    ((Value.document kind fs).prepared = .error Value.viewRefusal ∧
      Flatten.fields (.document kind fs) = .error Value.viewRefusal) ∨
    ∃ g, (Value.document kind fs).prepared = .ok (.plain g) ∧ Flatten.fields (.document kind fs) = .ok g := by
  cases hrefuses : (Value.document kind fs).refusesPreparation with
  | true =>
    have hprepared : (Value.document kind fs).prepared = .error Value.viewRefusal := by
      rw [Value.prepared, hrefuses]
      rfl
    refine .inl ⟨hprepared, ?_⟩
    cases kind with
    | readOnly => exact absurd rfl hkind
    | plain | ordered =>
      rw [Flatten.fields, hprepared]
      rfl
  | false =>
    have hprepared : (Value.document kind fs).prepared = .ok (.plain (Value.convertedFields fs)) := by
      rw [Value.prepared, hrefuses]
      cases kind with
      | readOnly => exact absurd rfl hkind
      | plain | ordered => rfl
    exact .inr ⟨_, hprepared, Flatten.fields_of_prepared hkind hprepared⟩

theorem setFields_eq_placeAll {ls : List (Path × Value)} (h : ∀ l ∈ ls, Path.ofText l.1.text = l.1) (d : Document) :
    setFields (named (ls.map fun l => (l.1.text, l.2))) d = placeAll ls d := by
  induction ls generalizing d with
  | nil => rfl
  | cons l ls ih =>
    obtain ⟨hl, hls⟩ := List.forall_mem_cons.mp h
    have hfirst : Document.setField d (.text l.1.text, l.2) = d.place l.1 l.2 := congrArg (fun p => place p l.2 d) hl
    have hrest : ∀ first,
        (named (ls.map fun l => (l.1.text, l.2))).foldlM Document.setField first = placeAll ls first :=
      ih hls
    rw [setFields, named, List.map_cons, List.map_cons, List.foldlM_cons, hfirst, placeAll, List.foldlM_cons]
    exact Option.bind_congr fun first _ => hrest first

section

variable {es : List (String × Value)} (hkeys : ∀ e ∈ es, Path.IsSegment e.1)
  (hdistinct : es.Pairwise fun e f => e.1 ≠ f.1) (hvalues : ∀ e ∈ es, e.2.IsNamed)

include hkeys hvalues

theorem ofText_outline : ∀ l ∈ Document.outline es, Path.ofText l.1.text = l.1 := by
  intro l hl
  have hsegments := isSegment_outline hkeys (fun e he => (hvalues e he).isSegment_outline) l hl
  obtain ⟨e, _, k, _, rfl⟩ := exists_of_mem_outline hl
  exact Path.ofText_text _ (by simp) fun s hs => (hsegments s hs).2

include hdistinct

theorem apart_outline :
    (Document.outline es).Pairwise fun l k => Path.Apart l.1.text k.1.text := by
  have hpaths := ofText_outline hkeys hvalues
  have hdiverge := pairwise_outline hdistinct fun e he => (hvalues e he).pairwise_outline
  refine hdiverge.imp_of_mem fun hl hk h => ?_
  rw [Path.Apart, hpaths _ hl, hpaths _ hk]
  exact h

/-- What fields are flattened to expands to the fields. -/
theorem expandFields_outline :
    expandFields (named ((Document.outline es).map fun l => (l.1.text, l.2))) = .ok (named es) := by
  have hset : setFields (named ((Document.outline es).map fun l => (l.1.text, l.2))) [] = some (named es) := by
    rw [setFields_eq_placeAll (ofText_outline hkeys hvalues)]
    exact placeAll_outline hdistinct (fun e he pre hpre => (hvalues e he).placeAll_outline hpre) fun _ _ => rfl
  refine expandFields_of_setFields ?_ ?_ hset
  · exact List.pairwise_map.mpr (apart_outline hkeys hdistinct hvalues)
  · intro f hf
    obtain ⟨l, hl, rfl⟩ := List.mem_map.mp hf
    obtain ⟨e, _, k, hk, rfl⟩ := exists_of_mem_outline hl
    obtain ⟨leaf, hleaf, rfl⟩ := List.mem_map.mp hk
    exact (isLeaf_leaves [] e.2 leaf hleaf).isCopyable

theorem flatten_named {entity : Value} (hfields : Flatten.fields entity = .ok (named es)) :
    flatten entity = .ok (named ((Document.outline es).map fun l => (l.1.text, l.2))) := by
  have hapart := apart_outline hkeys hdistinct hvalues
  refine flatten_of_fieldLeaves hfields ?_ ?_ (hapart.imp fun h => h.ne)
  · exact Value.IsNamed.fieldLeaves_eq hvalues []
  · intro l hl
    have hsegments := isSegment_outline hkeys (fun e he => (hvalues e he).isSegment_outline) l hl
    obtain ⟨e, _, k, _, rfl⟩ := exists_of_mem_outline hl
    exact ⟨by simp, fun s hs => (hsegments s hs).1⟩

end

/-- The fields of a plain document whose keys are segments of names are named. -/
theorem Value.IsNamed.exists_fields {g : Document} (h : (Value.plain g).IsNamed) :
    ∃ es, g = named es ∧ (∀ e ∈ es, Path.IsSegment e.1) ∧ (es.Pairwise fun e f => e.1 ≠ f.1) ∧
      ∀ e ∈ es, e.2.IsNamed := by
  generalize hv : Value.plain g = v at h
  cases h with
  | leaf h =>
    subst hv
    obtain rfl : g = [] := h
    exact ⟨[], rfl, List.forall_mem_nil _, .nil, List.forall_mem_nil _⟩
  | @fields es hkeys hdistinct hvalues =>
    obtain ⟨_, rfl⟩ := Value.document.inj hv
    exact ⟨es, rfl, hkeys, hdistinct, hvalues⟩

/-- A document is prepared, or it is flattened and expanded: both give the same, or fail in the same way. -/
theorem expand_flatten {kind : DocumentKind} {fs : Document} (hkind : kind ≠ .readOnly)
    (hnamed : ∀ w, (Value.document kind fs).prepared = .ok w → w.IsNamed) :
    (flatten (.document kind fs) >>= fun flat => (expand (.plain flat)).map Value.plain) =
      (Value.document kind fs).prepared := by
  rcases Flatten.fields_document hkind fs with ⟨hprepared, hfields⟩ | ⟨g, hprepared, hfields⟩
  · rw [hprepared, flatten, hfields]
    rfl
  · obtain ⟨es, rfl, hkeys, hdistinct, hvalues⟩ := (hnamed _ hprepared).exists_fields
    have hexpanded := expandFields_outline hkeys hdistinct hvalues
    rw [hprepared, flatten_named hkeys hdistinct hvalues hfields, Outcome.ok_bind, expand, fieldsOf, Outcome.ok_bind,
      hexpanded]
    rfl

/-- Fields of one level under names without empty segments, none of which leads to another or to a place inside it.
Their values are kept when they are prepared, and flattening goes no further into them. -/
structure Document.IsFlat (fields : List (String × Value)) : Prop where
  segments : ∀ f ∈ fields, ∀ s ∈ Path.ofText f.1, s ≠ ""
  distinct : fields.Pairwise fun f g => f.1 ≠ g.1
  separate : ∀ f ∈ fields, ∀ g ∈ fields, ∀ rest : String, g.1 ≠ f.1 ++ "." ++ rest
  prepared : ∀ f ∈ fields, f.2.prepared = .ok f.2
  isLeaf : ∀ f ∈ fields, IsLeaf f.2

namespace Document.IsFlat

variable {fields : List (String × Value)} (h : IsFlat fields)
include h

theorem apart : fields.Pairwise fun f g => Path.Apart f.1 g.1 := by
  refine h.distinct.imp_of_mem fun {f g} hf hg hne => ⟨fun hbegins => ?_, fun hbegins => ?_⟩
  · obtain ⟨rest, hrest⟩ := Path.exists_of_prefix hbegins hne
    exact h.separate f hf g hg rest hrest
  · obtain ⟨rest, hrest⟩ := Path.exists_of_prefix hbegins hne.symm
    exact h.separate g hg f hf rest hrest

/-- What fields expand to is flattened to the fields, in some order. -/
theorem flatten_expanded {d : Document} (hd : expandFields (named fields) = .ok d) :
    ∃ flat, flatten (.plain d) = .ok flat ∧ flat.Perm (named fields) := by
  have hready : (Value.plain d).isReady = true := by
    have hfields : Document.IsReady (named fields) := by
      intro f hf
      obtain ⟨g, hg, rfl⟩ := List.mem_map.mp hf
      exact (Value.prepared_eq_self_iff _).mp (h.prepared g hg)
    exact (Value.isReady_plain d).mpr (isReady_expandFields hfields hd)
  have hprepared := (Value.prepared_eq_self_iff _).mpr hready
  have hkept := Flatten.fields_of_prepared (by decide) hprepared
  -- The leaves of the expanded document are the fields, in another order.
  have hleaves : Relation.Comp (· = List.map (fun f : String × Value => ((Path.ofText f.1).keys, f.2)) ·) List.Perm
      (fieldLeaves [] d) fields := by
    rw [List.eq_map_comp_perm]
    exact Expand.fieldLeaves_expandFields h.apart h.isLeaf hd
  obtain ⟨ordered, hordered, hperm⟩ := hleaves
  have hpaths : fieldLeaves [] d = (ordered.map fun f => (Path.ofText f.1, f.2)).map fun l => (l.1.keys, l.2) := by
    rw [hordered, List.map_map]
    rfl
  have hdistinct : ordered.Pairwise fun f g => f.1 ≠ g.1 := (hperm.pairwise_iff Ne.symm).mpr h.distinct
  have hflat := flatten_of_fieldLeaves hkept hpaths ?_ ?_
  · rw [List.map_map] at hflat
    refine ⟨_, hflat, ?_⟩
    have hnames : (ordered.map fun f => (Path.text (Path.ofText f.1), f.2)) = ordered := by
      simp [Path.text_ofText]
    rw [Function.comp_def, hnames]
    exact hperm.map _
  · intro l hl
    obtain ⟨f, hf, rfl⟩ := List.mem_map.mp hl
    exact ⟨Path.ofText_ne_nil f.1, h.segments f (hperm.mem_iff.mp hf)⟩
  · rw [List.pairwise_map]
    simpa only [Path.text_ofText] using hdistinct

end Document.IsFlat

/-- Flattening and expanding undo each other. A document whose keys are segments of names once it is prepared expands
from its flattened form to what it is prepared to, in the same order at every level. A flat document expands, to one
that is flattened to its fields. -/
theorem flatten_expand_inverse {kind : DocumentKind} {fs : Document} (hkind : kind ≠ .readOnly)
    (hnamed : ∀ w, (Value.document kind fs).prepared = .ok w → w.IsNamed) {fields : List (String × Value)}
    (hflat : Document.IsFlat fields) (flatKind : DocumentKind) :
    (flatten (.document kind fs) >>= fun flat => (expand (.plain flat)).map Value.plain) =
        (Value.document kind fs).prepared ∧
      ∃ d flat, expand (.document flatKind (named fields)) = .ok d ∧ flatten (.plain d) = .ok flat ∧
        flat.Perm (named fields) := by
  refine ⟨expand_flatten hkind hnamed, ?_⟩
  have hcopy : ∀ f ∈ fields, IsCopyable f.2 := fun f hf => (hflat.isLeaf f hf).isCopyable
  obtain ⟨d, hd, _⟩ := expandFields_named hflat.apart hcopy
  obtain ⟨flat, hflattened, hperm⟩ := hflat.flatten_expanded hd
  exact ⟨d, flat, hd, hflattened, hperm⟩

/-- A customer with an address that holds a set and nothing more of another kind. -/
def tagged : Document :=
  [(.text "name", .text "Ken"),
    (.text "address", .document .ordered [(.text "tags", .set [.int 1]), (.text "rest", .plain [])]),
    (.text "total", .int 5)]

/-- The fields of an address, with others between them. -/
def scattered : List (String × Value) :=
  [("address.city", .text "Paris"), ("name", .text "Ken"), ("address.street.number", .int 5), ("rest", .plain [])]

theorem isFlat_scattered : Document.IsFlat scattered where
  segments := by decide +kernel
  distinct := by decide +kernel
  separate := by
    have hnone : ∀ f ∈ scattered, ∀ g ∈ scattered, ¬∃ p ∈ (Path.ofText g.1).ancestors, p.text = f.1 := by
      decide +kernel
    exact fun f hf g hg rest hrest => hnone f hf g hg (Path.exists_mem_ancestors_iff.mpr ⟨rest, hrest⟩)
  prepared := by
    have hready : ∀ f ∈ scattered, f.2.isReady = true := by decide +kernel
    exact fun f hf => (Value.prepared_eq_self_iff _).mpr (hready f hf)
  isLeaf := by simp [scattered, IsLeaf]

theorem flatten_expand_inverse_tagged :
    (flatten (.plain tagged) >>= fun flat => (expand (.plain flat)).map Value.plain) =
        .ok (.plain [(.text "name", .text "Ken"),
          (.text "address", .plain [(.text "tags", .list [.int 1]), (.text "rest", .plain [])]),
          (.text "total", .int 5)]) ∧
      ∃ d flat, expand (.plain (named scattered)) = .ok d ∧ flatten (.plain d) = .ok flat ∧
        flat.Perm (named scattered) := by
  have haddress : (Value.plain (named [("tags", .list [.int 1]), ("rest", .plain [])])).IsNamed := by
    refine .fields (by decide +kernel) (by decide +kernel) ?_
    exact List.forall_mem_cons.mpr ⟨.leaf trivial, List.forall_mem_singleton.mpr (.leaf rfl)⟩
  have hnamed : ∀ w, (Value.plain tagged).prepared = .ok w → w.IsNamed := by
    intro w hw
    obtain rfl := Except.ok.inj hw
    refine @Value.IsNamed.fields [("name", .text "Ken"),
      ("address", .plain [(.text "tags", .list [.int 1]), (.text "rest", .plain [])]), ("total", .int 5)]
      (by decide +kernel) (by decide +kernel) ?_
    exact List.forall_mem_cons.mpr ⟨.leaf trivial, List.forall_mem_cons.mpr ⟨haddress,
      List.forall_mem_singleton.mpr (.leaf trivial)⟩⟩
  exact flatten_expand_inverse (by decide) hnamed isFlat_scattered .plain

end EntityStore

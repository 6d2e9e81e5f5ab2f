import EntityStore.Document.Flatten
import EntityStore.Proofs.Document.Placing
import EntityStore.Proofs.Outcome

namespace EntityStore

theorem Path.parents_keys (s t : String) (p : Path) :
    (Path.keys (s :: t :: p)).parents = .text s :: (Path.keys (t :: p)).parents := rfl

theorem Path.leaf_keys (s t : String) (p : Path) : (Path.keys (s :: t :: p)).leaf = (Path.keys (t :: p)).leaf := by
  simp [Path.keys, KeyPath.leaf]

namespace Expand

open Document

variable {d e : Document} {v : Value} {p : Path}

/-- Whether a value is set as it is, because no copy of it has to be made or because it can be made. -/
def IsCopyable (v : Value) : Prop := copied v = .ok v

theorem setLeaf_absent {leaf : Value} (name : String) (hcopy : IsCopyable v)
    (h : Dictionary.get? leaf d = none) :
    setLeaf name leaf v d = .ok (Dictionary.insert leaf v d) := by
  rw [setLeaf, h]
  simp only
  rw [hcopy]
  rfl

theorem within_branch {s : String} {kind : DocumentKind} {fields : Document} (name : String)
    (rest : KeyPath) (change : Document → Except Failure Document)
    (hbranch : branch? (Dictionary.get? (.text s) d) = some (kind, fields)) (hkind : kind ≠ .readOnly) :
    within name (.text s :: rest) change d = within name rest change fields >>= fun changed =>
      pure (Dictionary.insert (.text s) (.document kind changed) d) := by
  rw [within]
  cases hs : Dictionary.get? (.text s) d with
  | none =>
    rw [hs, branch?, Option.some.injEq, Prod.mk.injEq] at hbranch
    obtain ⟨rfl, rfl⟩ := hbranch
    rfl
  | some w =>
    cases w with
    | document kind' fields' =>
      rw [hs, branch?, Option.some.injEq, Prod.mk.injEq] at hbranch
      obtain ⟨rfl, rfl⟩ := hbranch
      cases kind' with
      | readOnly => exact absurd rfl hkind
      | plain => rfl
      | ordered => rfl
    | _ => simp [hs, branch?] at hbranch

theorem setAt_eq_place (name : String) (hcopy : IsCopyable v) (hopen : IsOpen p d)
    (habsent : valueAt? p.keys d = none) (hplace : place p v d = some e) :
    setAt name p.keys v d = .ok e := by
  induction p generalizing d e with
  | nil => exact hopen.elim
  | cons s p ih =>
    cases p with
    | nil =>
      rw [valueAt?_one] at habsent
      rw [place, Option.some.injEq] at hplace
      rw [← hplace]
      exact setLeaf_absent name hcopy habsent
    | cons t p =>
      obtain ⟨kind, fields, changed, hbranch, hrest, rfl⟩ := place_cons.mp hplace
      obtain ⟨kind', fields', hbranch', hkind, hopen⟩ := hopen
      rw [hbranch] at hbranch'
      obtain ⟨rfl, rfl⟩ := Prod.mk.inj (Option.some.inj hbranch')
      rw [valueAt?_branch hbranch] at habsent
      have hset : setAt name (Path.keys (t :: p)) v fields = .ok changed := ih hopen habsent hrest
      rw [setAt, Path.parents_keys, Path.leaf_keys, within_branch name _ _ hbranch hkind]
      rw [setAt] at hset
      rw [hset]
      rfl

theorem foldlM_setField_named {fields : List (String × Value)}
    (hapart : fields.Pairwise fun f g => Path.Apart f.1 g.1) (hcopy : ∀ f ∈ fields, IsCopyable f.2)
    (haccepts : ∀ f ∈ fields, d.Accepts f.1) (habsent : ∀ f ∈ fields, d.stored? f.1 = none)
    (h : setFields (named fields) d = some e) : (named fields).foldlM setField d = .ok e := by
  induction fields generalizing d with
  | nil =>
    rw [setFields, named, List.map_nil, List.foldlM_nil] at h
    obtain rfl := Option.some.inj h
    rfl
  | cons f fields ih =>
    obtain ⟨hf, hrest⟩ := List.pairwise_cons.mp hapart
    rw [setFields, named, List.map_cons, List.foldlM_cons] at h
    obtain ⟨first, hfirst, h⟩ := Option.bind_eq_some_iff.mp h
    have hset : setField d (.text f.1, f.2) = .ok first :=
      setAt_eq_place f.1 (hcopy f (by simp)) (haccepts f (by simp)) (habsent f (by simp)) hfirst
    rw [named, List.map_cons, List.foldlM_cons, hset]
    -- The first field neither closes the paths of the others nor stores anything at their ends.
    apply ih hrest (fun g hg => hcopy g (by simp [hg])) _ _ h
    · intro g hg
      exact accepts_setField hfirst (.inr (hf g hg)) (haccepts g (by simp [hg]))
    · intro g hg
      have hkept : first.stored? g.1 = d.stored? g.1 :=
        valueAt?_place_of_apart hfirst (hf g hg).1 (hf g hg).2
      rw [hkept]
      exact habsent g (by simp [hg])

theorem stored?_nil (field : String) : stored? field [] = none := by
  cases hpath : Path.ofText field <;> simp [stored?, hpath, Path.keys, valueAt?, Dictionary.get?]

/-- Fields whose names are apart expand to what setting them makes of an empty document. -/
theorem expandFields_of_setFields {fields : List (String × Value)}
    (hapart : fields.Pairwise fun f g => Path.Apart f.1 g.1) (hcopy : ∀ f ∈ fields, IsCopyable f.2)
    (h : setFields (named fields) [] = some d) : expandFields (named fields) = .ok d :=
  foldlM_setField_named hapart hcopy (fun f _ => accepts_nil f.1) (fun f _ => stored?_nil f.1) h

/-- Fields whose names are apart expand to a document that stores each of them. -/
theorem expandFields_named {fields : List (String × Value)}
    (hapart : fields.Pairwise fun f g => Path.Apart f.1 g.1) (hcopy : ∀ f ∈ fields, IsCopyable f.2) :
    ∃ d, expandFields (named fields) = .ok d ∧
      (∀ f ∈ fields, d.stored? f.1 = some f.2 ∧ d.Accepts f.1) ∧
      ∀ field, (∀ f ∈ fields, Path.Apart f.1 field) → d.stored? field = none := by
  obtain ⟨d, hd, hset, hkept⟩ := setFields_named hapart fun f _ => accepts_nil f.1
  refine ⟨d, expandFields_of_setFields hapart hcopy hd, hset, ?_⟩
  intro field hfield
  rw [(hkept field hfield).1, stored?_nil]

end Expand

end EntityStore

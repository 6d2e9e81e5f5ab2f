import EntityStore.Proofs.Document.Flattening

namespace EntityStore

open Document Expand

theorem Path.keys_prefix_iff {p q : Path} : p.keys <+: q.keys ↔ p <+: q :=
  List.prefix_map_iff_of_injective fun _ _ h => Value.text.inj h

namespace Flatten

variable {keys : List Value} {d e : Document} {l : List Value × Value} {s : String} {v : Value} {p : Path}

theorem fieldLeaves_eq_flatMap (keys : List Value) (d : Document) :
    fieldLeaves keys d = d.flatMap fun f => leaves (keys ++ [f.1]) f.2 := by
  induction d with
  | nil => rfl
  | cons f d ih => rw [fieldLeaves, ih, fieldLeavesOf, List.flatMap_cons]

theorem mem_fieldLeaves_of_get? (h : Dictionary.get? (.text s) d = some v)
    (hl : l ∈ leaves (keys ++ [.text s]) v) : l ∈ fieldLeaves keys d := by
  obtain ⟨key, hkey, hmem⟩ := Dictionary.exists_mem_of_get? h
  obtain rfl := (Value.beq_text key s).mp hkey
  rw [fieldLeaves_eq_flatMap]
  exact List.mem_flatMap.mpr ⟨_, hmem, hl⟩

theorem leaves_document {kind : DocumentKind} (hkind : kind ≠ .readOnly) (hd : d ≠ []) :
    leaves keys (.document kind d) = fieldLeaves keys d := by
  have hempty : d.isEmpty = false := by simpa using hd
  cases kind with
  | readOnly => exact absurd rfl hkind
  | plain | ordered => rw [leaves, hempty, if_neg Bool.false_ne_true]

/-- A field that is new adds its leaves. -/
theorem fieldLeaves_insert_of_none (keys : List Value) (h : Dictionary.get? (.text s) d = none) (v : Value) :
    (fieldLeaves keys (Dictionary.insert (.text s) v d)).Perm
      (leaves (keys ++ [.text s]) v ++ fieldLeaves keys d) := by
  rw [Dictionary.insert_of_get?_eq_none h, fieldLeaves_eq_flatMap, List.flatMap_append, List.flatMap_singleton,
    ← fieldLeaves_eq_flatMap]
  exact List.perm_append_comm

/-- A field that is set again has other leaves, and all others are kept. -/
theorem fieldLeaves_insert_of_some {added : List (List Value × Value)} (h : Dictionary.get? (.text s) d = some v)
    {w : Value} (hw : (leaves (keys ++ [.text s]) w).Perm (added ++ leaves (keys ++ [.text s]) v)) :
    (fieldLeaves keys (Dictionary.insert (.text s) w d)).Perm (added ++ fieldLeaves keys d) := by
  obtain ⟨key, before, after, hkey, rfl, hinsert⟩ := Dictionary.exists_insert_eq h
  obtain rfl := (Value.beq_text key s).mp hkey
  simp only [hinsert, fieldLeaves_eq_flatMap, List.flatMap_append, List.flatMap_cons]
  refine (((hw.append_right _).append_left _).trans ?_)
  rw [List.append_assoc]
  exact List.perm_append_comm_assoc _ _ _

/-- A value that is set at the end of a path is the only new leaf, and no leaf is lost: none stands on the way. -/
theorem fieldLeaves_place (hv : IsLeaf v) (hopen : IsOpen p d) (habsent : valueAt? p.keys d = none)
    (hfree : ∀ l ∈ fieldLeaves keys d, ¬l.1 <+: keys ++ p.keys) (hplace : place p v d = some e) :
    (fieldLeaves keys e).Perm ((keys ++ p.keys, v) :: fieldLeaves keys d) := by
  induction p generalizing keys d e with
  | nil => exact hopen.elim
  | cons s p ih =>
    cases p with
    | nil =>
      rw [valueAt?_one] at habsent
      rw [place, Option.some.injEq] at hplace
      have hleaves := fieldLeaves_insert_of_none keys habsent v
      rwa [hplace, leaves_of_isLeaf hv] at hleaves
    | cons t p =>
      obtain ⟨kind, fields, changed, hbranch, hrest, rfl⟩ := place_cons.mp hplace
      obtain ⟨kind', fields', hbranch', hkind, hopen⟩ := hopen
      rw [hbranch] at hbranch'
      obtain ⟨rfl, rfl⟩ := Prod.mk.inj (Option.some.inj hbranch')
      rw [valueAt?_branch hbranch] at habsent
      have hkeys : keys ++ Path.keys (s :: t :: p) = keys ++ [.text s] ++ Path.keys (t :: p) := by simp [Path.keys]
      rw [hkeys] at hfree ⊢
      have hchanged : leaves (keys ++ [.text s]) (.document kind changed) = fieldLeaves (keys ++ [.text s]) changed :=
        leaves_document hkind (place_ne_nil hrest)
      cases hs : Dictionary.get? (.text s) d with
      | none =>
        rw [hs, branch?, Option.some.injEq, Prod.mk.injEq] at hbranch
        obtain ⟨rfl, rfl⟩ := hbranch
        have hnew : (fieldLeaves (keys ++ [.text s]) changed).Perm [(keys ++ [.text s] ++ Path.keys (t :: p), v)] :=
          ih hopen habsent (List.forall_mem_nil _) hrest
        refine (fieldLeaves_insert_of_none keys hs _).trans ?_
        rw [hchanged]
        exact hnew.append_right _
      | some w =>
        obtain rfl : w = .document kind fields := by
          cases w with
          | document _ _ =>
            rw [hs, branch?, Option.some.injEq, Prod.mk.injEq] at hbranch
            rw [hbranch.1, hbranch.2]
          | _ => simp [hs, branch?] at hbranch
        -- An empty document on the way would be a leaf, and the path leads on from it.
        have hfields : fields ≠ [] := by
          rintro rfl
          have hempty : IsLeaf (.document kind []) := by cases kind <;> trivial
          have hleaf : (keys ++ [.text s], .document kind []) ∈ fieldLeaves keys d := by
            apply mem_fieldLeaves_of_get? hs
            rw [leaves_of_isLeaf hempty]
            exact List.mem_singleton_self _
          exact hfree _ hleaf (List.prefix_append _ _)
        have hold : leaves (keys ++ [.text s]) (.document kind fields) = fieldLeaves (keys ++ [.text s]) fields :=
          leaves_document hkind hfields
        have hnew : (fieldLeaves (keys ++ [.text s]) changed).Perm
            ([(keys ++ [.text s] ++ Path.keys (t :: p), v)] ++ fieldLeaves (keys ++ [.text s]) fields) :=
          ih hopen habsent (fun l hl => hfree l (mem_fieldLeaves_of_get? hs (hold ▸ hl))) hrest
        rw [← hchanged, ← hold] at hnew
        exact fieldLeaves_insert_of_some hs hnew

/-- Setting fields adds one leaf for each of them. -/
theorem fieldLeaves_setFields {fields : List (String × Value)}
    (hapart : fields.Pairwise fun f g => Path.Apart f.1 g.1) (hleaf : ∀ f ∈ fields, IsLeaf f.2)
    (haccepts : ∀ f ∈ fields, d.Accepts f.1) (habsent : ∀ f ∈ fields, d.stored? f.1 = none)
    (hfree : ∀ f ∈ fields, ∀ l ∈ fieldLeaves [] d, ¬l.1 <+: (Path.ofText f.1).keys)
    (h : setFields (named fields) d = some e) :
    (fieldLeaves [] e).Perm ((fields.map fun f => ((Path.ofText f.1).keys, f.2)) ++ fieldLeaves [] d) := by
  induction fields generalizing d with
  | nil =>
    rw [setFields, named, List.map_nil, List.foldlM_nil] at h
    obtain rfl := Option.some.inj h
    exact .refl _
  | cons f fields ih =>
    obtain ⟨hf, hrest⟩ := List.pairwise_cons.mp hapart
    rw [setFields, named, List.map_cons, List.foldlM_cons] at h
    obtain ⟨first, hfirst, h⟩ := Option.bind_eq_some_iff.mp h
    have hset : (fieldLeaves [] first).Perm (((Path.ofText f.1).keys, f.2) :: fieldLeaves [] d) :=
      fieldLeaves_place (hleaf f (by simp)) (haccepts f (by simp)) (habsent f (by simp)) (hfree f (by simp)) hfirst
    have hothers := ih hrest (fun g hg => hleaf g (by simp [hg]))
      (fun g hg => accepts_setField hfirst (.inr (hf g hg)) (haccepts g (by simp [hg])))
      (fun g hg => (valueAt?_place_of_apart hfirst (hf g hg).1 (hf g hg).2).trans (habsent g (by simp [hg])))
      (fun g hg l hl => by
        rcases List.mem_cons.mp (hset.mem_iff.mp hl) with rfl | hl
        · exact fun hbegins => (hf g hg).1 (Path.keys_prefix_iff.mp hbegins)
        · exact hfree g (by simp [hg]) l hl) h
    refine hothers.trans ((hset.append_left _).trans ?_)
    rw [List.map_cons, List.cons_append]
    exact List.perm_middle

end Flatten

/-- Fields under names that are apart are the leaves of the document that they expand to, each once. -/
theorem Expand.fieldLeaves_expandFields {fields : List (String × Value)}
    (hapart : fields.Pairwise fun f g => Path.Apart f.1 g.1) (hleaf : ∀ f ∈ fields, Flatten.IsLeaf f.2)
    {d : Document} (hd : expandFields (named fields) = .ok d) :
    (Flatten.fieldLeaves [] d).Perm (fields.map fun f => ((Path.ofText f.1).keys, f.2)) := by
  have hcopy : ∀ f ∈ fields, IsCopyable f.2 := fun f hf => (hleaf f hf).isCopyable
  have hempty : ∀ f ∈ fields, Accepts [] f.1 := fun f _ => accepts_nil f.1
  obtain ⟨e, he, _⟩ := setFields_named hapart hempty
  have hexpanded : expandFields (named fields) = .ok e := expandFields_of_setFields hapart hcopy he
  obtain rfl := Except.ok.inj (hexpanded.symm.trans hd)
  have hleaves := Flatten.fieldLeaves_setFields hapart hleaf hempty (fun f _ => stored?_nil f.1)
    (fun _ _ => List.forall_mem_nil _) he
  rwa [Flatten.fieldLeaves, List.append_nil] at hleaves

theorem Expand.mem_fieldLeaves_expandFields {fields : List (String × Value)}
    (hapart : fields.Pairwise fun f g => Path.Apart f.1 g.1) (hleaf : ∀ f ∈ fields, Flatten.IsLeaf f.2)
    {d : Document} (hd : expandFields (named fields) = .ok d) (l : List Value × Value) :
    l ∈ Flatten.fieldLeaves [] d ↔ ∃ f ∈ fields, l = ((Path.ofText f.1).keys, f.2) := by
  rw [(fieldLeaves_expandFields hapart hleaf hd).mem_iff, List.mem_map]
  exact ⟨fun ⟨f, hf, h⟩ => ⟨f, hf, h.symm⟩, fun ⟨f, hf, h⟩ => ⟨f, hf, h.symm⟩⟩

end EntityStore

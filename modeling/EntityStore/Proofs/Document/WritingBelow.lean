import EntityStore.Document.Sharing
import EntityStore.Proofs.Document.Expansion
import EntityStore.Proofs.Document.Setting

namespace EntityStore

open Document Expand

namespace Sharing

variable {name s f : String} {p q : Path} {v w : Value} {d e fields x : Document} {kind k : DocumentKind}

theorem setBelow_nil_of_none (h : writable? v = none) : setBelow name (Path.keys []) v d = d := by
  simp [setBelow, Path.keys, h]

theorem setBelow_nil_of_some {new : DocumentKind × Document} (h : writable? v = some new) :
    setBelow name (Path.keys []) v d = Dictionary.insertMany d new.2 := by
  simp [setBelow, Path.keys, h]

theorem setBelow_segments (name s : String) (p : Path) (v : Value) (d : Document) :
    setBelow name (Path.keys (s :: p)) v d = match setAt name (Path.keys (s :: p)) v d with
      | .ok node => node
      | .error (.notCopyable _) => (within name (Path.keys (s :: p)).parents .ok d).toOption.getD d
      | .error _ => d := rfl

theorem setBelow_of_setAt (hp : p ≠ []) (h : setAt name p.keys v d = .ok e) : setBelow name p.keys v d = e := by
  obtain ⟨s, rest, rfl⟩ := List.exists_cons_of_ne_nil hp
  rw [setBelow_segments, h]

/-- The document that a path leads into is changed as if the rest of the path led through it alone. -/
theorem setBelow_cons (hs : Dictionary.get? (.text s) d = some (.document kind fields)) (hkind : kind ≠ .readOnly) :
    setBelow name (Path.keys (s :: p)) v d =
      Dictionary.insert (.text s) (.document kind (setBelow name p.keys v fields)) d := by
  have hsame : Dictionary.insert (.text s) (.document kind fields) d = d := Dictionary.insert_of_get? hs
  cases p with
  | nil =>
    have hset : setAt name (Path.keys [s]) v d = setLeaf name (.text s) v d := rfl
    rw [setBelow_segments, hset, setLeaf, hs]
    simp only [writable?_document hkind]
    cases hv : writable? v with
    | none => rw [setBelow_nil_of_none hv, hsame]
    | some new => rw [setBelow_nil_of_some hv]
  | cons t p =>
    have hbranch : branch? (Dictionary.get? (.text s) d) = some (kind, fields) := by rw [hs, branch?]
    have hwithin (change : Document → Except Failure Document) :
        within name (Path.keys (s :: t :: p)).parents change d =
          within name (Path.keys (t :: p)).parents change fields >>= fun changed =>
            pure (Dictionary.insert (.text s) (.document kind changed) d) := by
      rw [Path.parents_keys, within_branch name _ _ hbranch hkind]
    have hset : setAt name (Path.keys (s :: t :: p)) v d = setAt name (Path.keys (t :: p)) v fields >>= fun changed =>
        pure (Dictionary.insert (.text s) (.document kind changed) d) := by
      rw [setAt, Path.leaf_keys, hwithin]
      rfl
    rw [setBelow_segments, setBelow_segments, hset, hwithin]
    cases setAt name (Path.keys (t :: p)) v fields with
    | ok changed => rfl
    | error refusal =>
      cases refusal with
      -- The documents that were made on the way stay, although the value itself is not set.
      | notCopyable _ =>
        cases within name (Path.keys (t :: p)).parents .ok fields with
        | ok changed => rfl
        | error _ => exact hsame.symm
      | _ => exact hsame.symm

/-- Documents that are made on the way are set where the way begins. -/
theorem exists_insert_of_within {rest : KeyPath} {change : Document → Except Failure Document}
    (h : within name (.text s :: rest) change d = .ok e) : ∃ u, e = Dictionary.insert (.text s) u d := by
  rw [within] at h
  split at h
  · obtain ⟨fields, -, h⟩ := Outcome.bind_eq_ok.mp h
    exact ⟨_, (Except.ok.inj h).symm⟩
  · cases h
  · obtain ⟨fields, -, h⟩ := Outcome.bind_eq_ok.mp h
    exact ⟨_, (Except.ok.inj h).symm⟩
  · obtain ⟨shown, -, h⟩ := Outcome.bind_eq_ok.mp h
    cases h

/-- Nothing changes but where the path begins. -/
theorem get?_setBelow_of_ne {u : String} (hsu : s ≠ u) :
    Dictionary.get? (.text u) (setBelow name (Path.keys (s :: p)) v d) = Dictionary.get? (.text u) d := by
  have hkept {e : Document} (h : ∃ w, e = Dictionary.insert (.text s) w d) :
      Dictionary.get? (.text u) e = Dictionary.get? (.text u) d := by
    obtain ⟨w, rfl⟩ := h
    exact get?_insert_text_of_ne hsu w d
  rw [setBelow_segments]
  cases hset : setAt name (Path.keys (s :: p)) v d with
  | ok e => exact hkept (exists_insert_of_setAt hset)
  | error refusal =>
    cases refusal with
    | notCopyable _ =>
      cases p with
      | nil => rfl
      | cons t p =>
        cases hmade : within name (Path.keys (s :: t :: p)).parents .ok d with
        | ok e => exact hkept (exists_insert_of_within (Path.parents_keys s t p ▸ hmade))
        | error _ => rfl
    | _ => rfl

theorem reached?_segment (hkind : kind ≠ .readOnly) (s : String) (p : Path) (d : Document) :
    (Value.document kind d).reached? (Path.keys (s :: p)) =
      (Dictionary.get? (.text s) d).bind (Value.reached? (Path.keys p)) :=
  reached?_document hkind _ _ _

/-- The document at the end of a path that begins with a segment is one that is held under it, or below that. -/
theorem exists_of_reached?_cons (hkind : kind ≠ .readOnly) (hk : k ≠ .readOnly)
    (h : (Value.document kind d).reached? (Path.keys (s :: p)) = some (.document k x)) :
    ∃ kind' fields, kind' ≠ .readOnly ∧ Dictionary.get? (.text s) d = some (.document kind' fields) ∧
      (Value.document kind' fields).reached? p.keys = some (.document k x) := by
  rw [reached?_segment hkind] at h
  obtain ⟨w, hw, h⟩ := Option.bind_eq_some_iff.mp h
  obtain ⟨kind', fields, rfl, hkind'⟩ := exists_document_of_reached? hk h
  exact ⟨kind', fields, hkind', hw, h⟩

theorem reached?_insert_self (hkind : kind ≠ .readOnly) (w : Value) (p : Path) (d : Document) :
    (Value.document kind (Dictionary.insert (.text s) w d)).reached? (Path.keys (s :: p)) =
      w.reached? (Path.keys p) := by
  rw [reached?_segment hkind, get?_insert_text_self, Option.bind_some]

/-- A document that the path leads through is changed by what is left of the path. -/
theorem reached?_setBelow_of_prefix (hkind : kind ≠ .readOnly) (hk : k ≠ .readOnly)
    (h : (Value.document kind d).reached? p.keys = some (.document k x)) :
    (Value.document kind (setBelow name (Path.keys (p ++ q)) v d)).reached? p.keys =
      some (.document k (setBelow name q.keys v x)) := by
  induction p generalizing kind d with
  | nil =>
    obtain ⟨rfl, rfl⟩ := Value.document.inj (Option.some.inj h)
    rfl
  | cons s p ih =>
    obtain ⟨kind', fields, hkind', hs, hbelow⟩ := exists_of_reached?_cons hkind hk h
    rw [List.cons_append, setBelow_cons hs hkind', reached?_insert_self hkind]
    exact ih hkind' hbelow

/-- A document that the path does not lead through is kept, unless the value overwrites it. -/
theorem reached?_setBelow_of_kept (hkind : kind ≠ .readOnly) (hk : k ≠ .readOnly) (hv : v.HasDistinctKeys)
    (h : (Value.document kind d).reached? p.keys = some (.document k x)) (hpq : ¬p <+: q)
    (hkept : ¬Overwrites q v p.keys) :
    (Value.document kind (setBelow name q.keys v d)).reached? p.keys = some (.document k x) := by
  induction q generalizing p kind d with
  | nil =>
    cases p with
    | nil => exact absurd List.nil_prefix hpq
    | cons s p =>
      cases hgiven : writable? v with
      | none => rwa [setBelow_nil_of_none hgiven]
      | some given =>
        have hnot : ¬(v.reached? [.text s]).isSome = true := fun hsome => hkept ⟨.text s, Path.keys p, rfl, hsome⟩
        have hmerged : (Value.document kind (Dictionary.insertMany d given.2)).reached? (Path.keys (s :: p)) =
            if (v.reached? [.text s]).isSome = true then v.reached? (Path.keys (s :: p))
            else (Value.document kind d).reached? (Path.keys (s :: p)) :=
          reached?_merged hkind hv hgiven (Value.isKey_text s) _
        rw [setBelow_nil_of_some hgiven, hmerged, if_neg hnot, h]
  | cons u q ih =>
    cases p with
    | nil => exact absurd List.nil_prefix hpq
    | cons s p =>
      obtain ⟨kind', fields, hkind', hs, hbelow⟩ := exists_of_reached?_cons hkind hk h
      by_cases hus : u = s
      · subst hus
        rw [setBelow_cons hs hkind', reached?_insert_self hkind]
        refine ih hkind' hbelow ?_ fun hoverwrites => hkept (overwrites_cons.mpr ⟨rfl, hoverwrites⟩)
        simpa [List.cons_prefix_cons] using hpq
      · rwa [reached?_segment hkind, get?_setBelow_of_ne hus, ← reached?_segment hkind]

/-- A value that is set where something stands already is a document that is merged into another one. -/
theorem exists_of_setAt_present (hkind : kind ≠ .readOnly) (h : setAt name p.keys v d = .ok e)
    (hpresent : (valueAt? p.keys d).isSome = true) :
    ∃ k x new, k ≠ .readOnly ∧ (Value.document kind d).reached? p.keys = some (.document k x) ∧
      writable? v = some new := by
  induction p generalizing kind d e with
  | nil => cases hpresent
  | cons s p ih =>
    rw [reached?_segment hkind]
    cases p with
    | nil =>
      rw [valueAt?_one] at hpresent
      rcases setAt_one h with ⟨hnone, -⟩ | ⟨old, k, x, new, hold, hx, hnew, -⟩
      · rw [hnone] at hpresent
        cases hpresent
      · obtain ⟨rfl, hk⟩ := exists_of_writable? hx
        exact ⟨k, x, new, hk, by rw [hold]; rfl, hnew⟩
    | cons t p =>
      obtain ⟨kind', fields, changed, hkind', hbranch, hset, -⟩ := setAt_cons h
      rw [valueAt?_branch hbranch] at hpresent
      obtain ⟨k, x, new, hk, hx, hnew⟩ := ih hkind' hset hpresent
      refine ⟨k, x, new, hk, ?_, hnew⟩
      cases hs : Dictionary.get? (.text s) d with
      | none =>
        rw [hs] at hbranch
        obtain ⟨rfl, rfl⟩ := Prod.mk.inj (Option.some.inj hbranch)
        cases hpresent
      | some w =>
        rw [hs] at hbranch
        cases w with
        | document _ _ =>
          obtain ⟨rfl, rfl⟩ := Prod.mk.inj (Option.some.inj hbranch)
          exact hx
        | _ => exact nomatch hbranch

/-- What a document holds under a key is held in its place once it was merged. -/
theorem reached?_of_merged (hkind : kind ≠ .readOnly) (hp : p ≠ []) (hv : v.HasDistinctKeys)
    (h : setAt name p.keys v d = .ok e) (hpresent : (valueAt? p.keys d).isSome = true)
    (hf : v.reached? [.text f] = some w) : (Value.document kind e).reached? (Path.keys (p ++ [f])) = some w := by
  obtain ⟨k, x, new, hk, hx, hnew⟩ := exists_of_setAt_present hkind h hpresent
  have hthere : (Value.document kind e).reached? p.keys = some (.document k (Dictionary.insertMany x new.2)) := by
    have hend : (Value.document kind (setBelow name (Path.keys (p ++ [])) v d)).reached? p.keys =
        some (.document k (setBelow name (Path.keys []) v x)) := reached?_setBelow_of_prefix hkind hk hx
    rwa [List.append_nil, setBelow_of_setAt hp h, setBelow_nil_of_some hnew] at hend
  have hkeys : Path.keys (p ++ [f]) = p.keys ++ [.text f] := List.map_append
  have hsome : (v.reached? [.text f]).isSome = true := by rw [hf]; rfl
  rw [hkeys, Value.reached?_append, hthere, Option.bind_some, reached?_merged hk hv hnew (Value.isKey_text f),
    if_pos hsome]
  exact hf

end Sharing

end EntityStore

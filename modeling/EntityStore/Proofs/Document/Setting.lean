import EntityStore.Proofs.Document.Reaching
import EntityStore.Proofs.Value.Key

namespace EntityStore

open Document Expand

/-- Whether no key of a document equals one in front of it, as in any dictionary. -/
def Value.HasDistinctKeys (v : Value) : Prop :=
  ∀ d ∈ writable? v, d.2.Pairwise fun p q => (p.1 == q.1) = false

/-- Whether a value is kept as another one: as itself, or as some document if it is one that can be merged with. -/
structure Value.IsKeptAs (w w' : Value) : Prop where
  solid : writable? w = none → w' = w
  document : (writable? w).isSome = true → (writable? w').isSome = true

theorem Value.IsKeptAs.refl (w : Value) : w.IsKeptAs w := ⟨fun _ => rfl, fun h => h⟩

theorem Value.IsKeptAs.trans {u v w : Value} (h : u.IsKeptAs v) (h' : v.IsKeptAs w) : u.IsKeptAs w := by
  constructor
  · intro hu
    obtain rfl := h.solid hu
    exact h'.solid hu
  · intro hu
    exact h'.document (h.document hu)

namespace Expand

variable {name s : String} {p : Path} {v w : Value} {d e : Document} {q : KeyPath} {key : Value}
  {kind : DocumentKind}

/-- A field that is set is new, or a document is merged into the one that it holds. -/
theorem setAt_one (h : setAt name (Path.keys [s]) v d = .ok e) :
    (Dictionary.get? (.text s) d = none ∧ e = Dictionary.insert (.text s) v d) ∨
      ∃ old kind fields given, Dictionary.get? (.text s) d = some old ∧ writable? old = some (kind, fields) ∧
        writable? v = some given ∧
        e = Dictionary.insert (.text s) (.document kind (Dictionary.insertMany fields given.2)) d := by
  have hset : setLeaf name (.text s) v d = .ok e := h
  rw [setLeaf] at hset
  split at hset
  · next habsent =>
    obtain ⟨copy, hcopy, hset⟩ := Outcome.bind_eq_ok.mp hset
    rw [copied] at hcopy
    split at hcopy
    · cases hcopy
    · obtain rfl := Except.ok.inj hcopy
      exact .inl ⟨habsent, (Except.ok.inj hset).symm⟩
  · next old hold =>
    split at hset
    · next kind fields _ new hfields hnew =>
      exact .inr ⟨old, kind, fields, _, hold, hfields, hnew, (Except.ok.inj hset).symm⟩
    · cases hset

/-- A field that leads on is set in the document that it holds, or in a new one; anything else is in the way. -/
theorem setAt_below (name s t : String) (p : Path) (v : Value) (d : Document) :
    (∃ kind fields, kind ≠ .readOnly ∧ branch? (Dictionary.get? (.text s) d) = some (kind, fields) ∧
      setAt name (Path.keys (s :: t :: p)) v d = setAt name (Path.keys (t :: p)) v fields >>= fun changed =>
        pure (Dictionary.insert (.text s) (.document kind changed) d)) ∨
    ∃ part, setAt name (Path.keys (s :: t :: p)) v d = .error (.pathThroughScalar name part) := by
  rw [setAt, Path.parents_keys, Path.leaf_keys, within]
  cases Dictionary.get? (.text s) d with
  | none => exact .inl ⟨.plain, [], by decide, rfl, rfl⟩
  | some w =>
    cases w with
    | document kind fields =>
      cases kind with
      | readOnly => exact .inr ⟨s, rfl⟩
      | plain | ordered => exact .inl ⟨_, fields, by decide, rfl, rfl⟩
    | _ => exact .inr ⟨s, rfl⟩

theorem setAt_cons {t : String} (h : setAt name (Path.keys (s :: t :: p)) v d = .ok e) :
    ∃ kind fields changed, kind ≠ .readOnly ∧ branch? (Dictionary.get? (.text s) d) = some (kind, fields) ∧
      setAt name (Path.keys (t :: p)) v fields = .ok changed ∧
      e = Dictionary.insert (.text s) (.document kind changed) d := by
  rcases setAt_below name s t p v d with ⟨kind, fields, hkind, hbranch, hset⟩ | ⟨part, hset⟩
  · rw [hset] at h
    obtain ⟨changed, hchanged, h⟩ := Outcome.bind_eq_ok.mp h
    exact ⟨kind, fields, changed, hkind, hbranch, hchanged, (Except.ok.inj h).symm⟩
  · rw [hset] at h
    exact nomatch h

/-- A value is set below the field that its path begins with. -/
theorem exists_insert_of_setAt (h : setAt name (Path.keys (s :: p)) v d = .ok e) :
    ∃ u, e = Dictionary.insert (.text s) u d := by
  cases p with
  | nil =>
    rcases setAt_one h with ⟨-, rfl⟩ | ⟨_, _, _, _, -, -, -, rfl⟩
    · exact ⟨_, rfl⟩
    · exact ⟨_, rfl⟩
  | cons t p =>
    obtain ⟨_, _, _, -, -, -, rfl⟩ := setAt_cons h
    exact ⟨_, rfl⟩

/-- Whether a value that is set at the end of a path brings another one to the end of some keys. -/
def Brings (p : Path) (v : Value) (q : KeyPath) (w : Value) : Prop :=
  ∃ r, q = p.keys ++ r ∧ v.reached? r = some w

/-- Whether a value that is set at the end of a path takes the place of what stands at the end of some keys: it is a
document that is merged into one on the way there, and holds something itself under the next key. -/
def Overwrites (p : Path) (v : Value) (q : KeyPath) : Prop :=
  ∃ key r, q = p.keys ++ key :: r ∧ (v.reached? [key]).isSome = true

theorem brings_cons : Brings (s :: p) v (key :: q) w ↔ key = .text s ∧ Brings p v q w := by
  constructor
  · rintro ⟨r, hq, hr⟩
    obtain ⟨rfl, rfl⟩ := List.cons.inj hq
    exact ⟨rfl, r, rfl, hr⟩
  · rintro ⟨rfl, r, rfl, hr⟩
    exact ⟨r, rfl, hr⟩

theorem overwrites_cons : Overwrites (s :: p) v (key :: q) ↔ key = .text s ∧ Overwrites p v q := by
  constructor
  · rintro ⟨k, r, hq, hk⟩
    obtain ⟨rfl, rfl⟩ := List.cons.inj hq
    exact ⟨rfl, k, r, rfl, hk⟩
  · rintro ⟨rfl, k, r, rfl, hk⟩
    exact ⟨k, r, rfl, hk⟩

@[simp]
theorem brings_nil : Brings [] v q w ↔ v.reached? q = some w := by
  simp [Brings, Path.keys]

theorem not_brings_to_root : ¬Brings (s :: p) v [] w := by
  simp [Brings, Path.keys]

section

variable (hkind : kind ≠ .readOnly) (hq : ∀ k ∈ q, k.IsKey)
include hkind

theorem reached?_insert (hkey : key.IsKey) (u : Value) :
    (Value.document kind (Dictionary.insert (.text s) u d)).reached? (key :: q) =
      if (Value.text s == key) = true then u.reached? q else (Value.document kind d).reached? (key :: q) := by
  rw [reached?_document hkind, reached?_document hkind, Dictionary.get?_insert hkey]
  split <;> rfl

/-- A document holds what is merged into it, and else what it held. -/
theorem reached?_merged {fields : Document} {given : DocumentKind × Document} (hv : v.HasDistinctKeys)
    (hgiven : writable? v = some given) (hkey : key.IsKey) (q : KeyPath) :
    (Value.document kind (Dictionary.insertMany fields given.2)).reached? (key :: q) =
      if (v.reached? [key]).isSome = true then v.reached? (key :: q)
      else (Value.document kind fields).reached? (key :: q) := by
  have hunder (q : KeyPath) : v.reached? (key :: q) = (Dictionary.get? key given.2).bind (Value.reached? q) := by
    rw [Value.reached?, hgiven, Option.bind_some]
  rw [reached?_document hkind, reached?_document hkind, Dictionary.get?_insertMany hkey (hv given hgiven), hunder,
    hunder]
  cases Dictionary.get? key given.2 <;> rfl

theorem isKeptAs_document (d : Document) (h : (writable? w).isSome = true) : w.IsKeptAs (.document kind d) := by
  constructor
  · intro hnone
    rw [hnone] at h
    exact absurd h Bool.false_ne_true
  · intro _
    rw [writable?_document hkind]
    rfl

include hq

/-- Merging a document into another one keeps the values of both that it does not overwrite. -/
theorem reached?_merged_of_kept {fields : Document} {given : DocumentKind × Document} (hv : v.HasDistinctKeys)
    (hgiven : writable? v = some given)
    (hw : v.reached? q = some w ∨ ((Value.document kind fields).reached? q = some w ∧ ¬Overwrites [] v q)) :
    ∃ w', (Value.document kind (Dictionary.insertMany fields given.2)).reached? q = some w' ∧ w.IsKeptAs w' := by
  cases q with
  | nil =>
    refine ⟨_, rfl, isKeptAs_document hkind _ ?_⟩
    rcases hw with hw | ⟨hw, -⟩
    · obtain rfl := Option.some.inj hw
      rw [hgiven]
      rfl
    · obtain rfl := Option.some.inj hw
      rw [writable?_document hkind]
      rfl
  | cons key q =>
    refine ⟨w, ?_, .refl w⟩
    rw [reached?_merged hkind hv hgiven (hq key List.mem_cons_self)]
    split
    · next hsome =>
      refine hw.resolve_right fun hkept => hkept.2 ⟨key, q, rfl, hsome⟩
    · next hnone =>
      exact (hw.resolve_left fun hv => hnone (isSome_of_reached? hv)).1

/-- A value that no other can be merged with comes from one of the two documents. -/
theorem kept_of_reached?_merged {fields : Document} {given : DocumentKind × Document} (hv : v.HasDistinctKeys)
    (hgiven : writable? v = some given) (hw : writable? w = none)
    (h : (Value.document kind (Dictionary.insertMany fields given.2)).reached? q = some w) :
    v.reached? q = some w ∨ ((Value.document kind fields).reached? q = some w ∧ ¬Overwrites [] v q) := by
  cases q with
  | nil =>
    obtain rfl := Option.some.inj h
    rw [writable?_document hkind] at hw
    exact nomatch hw
  | cons key q =>
    rw [reached?_merged hkind hv hgiven (hq key List.mem_cons_self)] at h
    split at h
    · exact .inl h
    · next hnone =>
      refine .inr ⟨h, ?_⟩
      rintro ⟨k, r, hk, hsome⟩
      obtain ⟨rfl, rfl⟩ := List.cons.inj hk
      exact hnone hsome

end

/-- What is reached below a field is reached in the document that it holds; one that is missing counts as empty. -/
theorem reached?_branch {kind' : DocumentKind} {fields : Document} (hkind : kind ≠ .readOnly)
    (hkind' : kind' ≠ .readOnly) (hbranch : branch? (Dictionary.get? (.text s) d) = some (kind', fields)) :
    ((Value.document kind d).reached? (.text s :: q) = some w → (Value.document kind' fields).reached? q = some w) ∧
      (writable? w = none → (Value.document kind' fields).reached? q = some w →
        (Value.document kind d).reached? (.text s :: q) = some w) := by
  rw [reached?_document hkind]
  cases hs : Dictionary.get? (.text s) d with
  | none =>
    rw [hs] at hbranch
    obtain ⟨rfl, rfl⟩ := Prod.mk.inj (Option.some.inj hbranch)
    constructor
    · intro h
      exact nomatch h
    · intro hw h
      cases q with
      | nil =>
        obtain rfl := Option.some.inj h
        exact nomatch hw
      | cons key q => exact nomatch h
  | some old =>
    rw [hs] at hbranch
    cases old with
    | document _ _ =>
      obtain ⟨rfl, rfl⟩ := Prod.mk.inj (Option.some.inj hbranch)
      exact ⟨fun h => h, fun _ h => h⟩
    | _ => exact nomatch hbranch

/-- Setting a value changes nothing under other keys. -/
theorem reached?_of_ne (h : setAt name (Path.keys (s :: p)) v d = .ok e) (hkind : kind ≠ .readOnly) (hkey : key.IsKey)
    (hs : ¬(Value.text s == key) = true) :
    (Value.document kind e).reached? (key :: q) = (Value.document kind d).reached? (key :: q) := by
  obtain ⟨u, rfl⟩ := exists_insert_of_setAt h
  rw [reached?_insert hkind hkey, if_neg hs]

/-- Setting a value at the end of a path keeps it, and the values that it does not overwrite. -/
theorem reached?_setAt_of_kept (hp : p ≠ []) (hkind : kind ≠ .readOnly) (hq : ∀ k ∈ q, k.IsKey)
    (hv : v.HasDistinctKeys) (h : setAt name p.keys v d = .ok e)
    (hw : Brings p v q w ∨ ((Value.document kind d).reached? q = some w ∧ ¬Overwrites p v q)) :
    ∃ w', (Value.document kind e).reached? q = some w' ∧ w.IsKeptAs w' := by
  induction p generalizing q d e kind with
  | nil => exact absurd rfl hp
  | cons s p ih =>
    cases q with
    | nil =>
      obtain ⟨hroot, -⟩ := hw.resolve_left not_brings_to_root
      obtain rfl := Option.some.inj hroot
      exact ⟨_, rfl, isKeptAs_document hkind e (by rw [writable?_document hkind]; rfl)⟩
    | cons key q =>
      obtain ⟨hkey, hrest⟩ := List.forall_mem_cons.mp hq
      by_cases hs : (Value.text s == key) = true
      · obtain rfl := (Value.text_beq s key).mp hs
        simp only [brings_cons, overwrites_cons, true_and] at hw
        cases p with
        | nil =>
          rcases setAt_one h with ⟨habsent, rfl⟩ | ⟨old, kind', fields, given, hold, hfields, hgiven, rfl⟩
          · rw [reached?_insert hkind hkey, if_pos hs]
            rw [brings_nil, reached?_document hkind, habsent] at hw
            rcases hw with hw | ⟨hnone, -⟩
            · exact ⟨w, hw, .refl w⟩
            · exact nomatch hnone
          · obtain ⟨rfl, hkind'⟩ := exists_of_writable? hfields
            rw [reached?_insert hkind hkey, if_pos hs]
            rw [brings_nil, reached?_document hkind, hold] at hw
            exact reached?_merged_of_kept hkind' hrest hv hgiven hw
        | cons t p =>
          obtain ⟨kind', fields, changed, hkind', hbranch, hset, rfl⟩ := setAt_cons h
          rw [reached?_insert hkind hkey, if_pos hs]
          apply ih (List.cons_ne_nil t p) hkind' hrest hset
          exact hw.imp_right fun hkept => ⟨(reached?_branch hkind hkind' hbranch).1 hkept.1, hkept.2⟩
      · have hne : key ≠ .text s := fun hkey => hs (hkey ▸ (Value.text_beq s _).mpr rfl)
        have hkept := hw.resolve_left fun hbrings => hne (brings_cons.mp hbrings).1
        rw [reached?_of_ne h hkind hkey hs]
        exact ⟨w, hkept.1, .refl w⟩

/-- After a value was set at the end of a path, any value that no other can be merged with is one that it brings, or
one that it does not overwrite. -/
theorem kept_of_reached?_setAt (hp : p ≠ []) (hkind : kind ≠ .readOnly) (hq : ∀ k ∈ q, k.IsKey)
    (hv : v.HasDistinctKeys) (h : setAt name p.keys v d = .ok e) (hw : writable? w = none)
    (hreached : (Value.document kind e).reached? q = some w) :
    Brings p v q w ∨ ((Value.document kind d).reached? q = some w ∧ ¬Overwrites p v q) := by
  induction p generalizing q d e kind with
  | nil => exact absurd rfl hp
  | cons s p ih =>
    cases q with
    | nil =>
      obtain rfl := Option.some.inj hreached
      rw [writable?_document hkind] at hw
      exact nomatch hw
    | cons key q =>
      obtain ⟨hkey, hrest⟩ := List.forall_mem_cons.mp hq
      by_cases hs : (Value.text s == key) = true
      · obtain rfl := (Value.text_beq s key).mp hs
        simp only [brings_cons, overwrites_cons, true_and]
        cases p with
        | nil =>
          rcases setAt_one h with ⟨habsent, rfl⟩ | ⟨old, kind', fields, given, hold, hfields, hgiven, rfl⟩
          · rw [reached?_insert hkind hkey, if_pos hs] at hreached
            exact .inl (brings_nil.mpr hreached)
          · obtain ⟨rfl, hkind'⟩ := exists_of_writable? hfields
            rw [reached?_insert hkind hkey, if_pos hs] at hreached
            rw [brings_nil, reached?_document hkind, hold]
            exact kept_of_reached?_merged hkind' hrest hv hgiven hw hreached
        | cons t p =>
          obtain ⟨kind', fields, changed, hkind', hbranch, hset, rfl⟩ := setAt_cons h
          rw [reached?_insert hkind hkey, if_pos hs] at hreached
          have hbelow := ih (List.cons_ne_nil t p) hkind' hrest hset hreached
          exact hbelow.imp_right fun hkept => ⟨(reached?_branch hkind hkind' hbranch).2 hw hkept.1, hkept.2⟩
      · have hne : key ≠ .text s := fun hkey => hs (hkey ▸ (Value.text_beq s _).mpr rfl)
        rw [reached?_of_ne h hkind hkey hs] at hreached
        exact .inr ⟨hreached, fun hoverwrites => hne (overwrites_cons.mp hoverwrites).1⟩

end Expand

end EntityStore

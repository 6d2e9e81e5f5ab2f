import EntityStore.Document.Sharing
import EntityStore.Proofs.Document.Leaves
import EntityStore.Proofs.Document.NestedDocuments

namespace EntityStore

open Document Expand

namespace Sharing

/-- Where a document in a field stands in the result once the field was merged. -/
def placeOf (pair : String × String) : Path := Path.ofText pair.1 ++ [pair.2]

/-- A document in a field as part of both the result and of what was given. -/
def sharedUnder (pair : String × String) : Shared := ⟨(placeOf pair).keys, [.text pair.1, .text pair.2]⟩

def isName : Value → Bool
  | .text _ => true
  | _ => false

/-- Whether names alone lead to a shared document. What is under other keys is never set. -/
def IsNamed (s : Shared) : Bool := s.inResult.all isName

/-- The name of a field, if it holds a document. -/
def nestedName? : Value × Value → Option String
  | (.text name, v) => if v.isWritableDocument then some name else none
  | _ => none

/-- The names of the documents in a value. -/
def nestedNames (v : Value) : List String :=
  match writable? v with
  | some (_, fields) => fields.filterMap nestedName?
  | none => []

/-- Whether a document that is merged at the end of a path holds something itself where another path leads. -/
def overwrites (v : Value) : Path → Path → Bool
  | [], s :: _ => (v.reached? [.text s]).isSome
  | s :: p, t :: q => s == t && overwrites v p q
  | _, [] => false

variable {name s f : String} {p q : Path} {v w : Value} {d e fields x given : Document} {kind k : DocumentKind}
  {keys : KeyPath} {pairs : List (String × String)} {shared : List Shared}

theorem overwrites_iff : overwrites v p q = true ↔ Overwrites p v q.keys := by
  induction p generalizing q with
  | nil =>
    cases q with
    | nil => simp [overwrites, Overwrites, Path.keys]
    | cons t q => simp [overwrites, Overwrites, Path.keys]
  | cons s p ih =>
    cases q with
    | nil => simp [overwrites, Overwrites, Path.keys]
    | cons t q =>
      have hcons : Overwrites (s :: p) v (Path.keys (t :: q)) ↔ Value.text t = .text s ∧ Overwrites p v (Path.keys q) :=
        overwrites_cons
      rw [overwrites, Bool.and_eq_true, ih, hcons, beq_iff_eq, Value.text.injEq, eq_comm]

theorem nestedName?_eq_some {field : Value × Value} :
    nestedName? field = some f ↔ field.1 = .text f ∧ field.2.isWritableDocument = true := by
  obtain ⟨key, w⟩ := field
  cases key with
  | text name =>
    rw [nestedName?]
    split
    · next hw => simp [hw]
    · next hw => simp [hw]
  | _ => simp [nestedName?]

/-- Keys that names begin with are names. -/
theorem isPrefixOf_keys_iff : keys.isPrefixOf p.keys = true ↔ ∃ q : Path, keys = q.keys ∧ q <+: p := by
  induction keys generalizing p with
  | nil => simpa using ⟨[], rfl, List.nil_prefix⟩
  | cons key keys ih =>
    cases p with
    | nil =>
      simp [Path.keys]
    | cons s p =>
      have hkeys : Path.keys (s :: p) = .text s :: Path.keys p := rfl
      rw [hkeys, List.isPrefixOf_cons_cons, Bool.and_eq_true, Value.beq_text, ih]
      constructor
      · rintro ⟨rfl, q, rfl, hq⟩
        exact ⟨s :: q, rfl, by simpa [List.cons_prefix_cons] using hq⟩
      · rintro ⟨q, hq, hqp⟩
        cases q with
        | nil => cases hq
        | cons t q =>
          obtain ⟨rfl, rfl⟩ := List.cons.inj hq
          obtain ⟨hts, hqp⟩ := List.cons_prefix_cons.mp hqp
          exact ⟨by rw [hts], q, rfl, hqp⟩

theorem keys_isPrefixOf_keys : q.keys.isPrefixOf p.keys = true ↔ q <+: p := by
  rw [isPrefixOf_keys_iff]
  constructor
  · rintro ⟨r, hr, hrp⟩
    have hqr : q <+: r := Path.keys_prefix_iff.mp (hr ▸ List.prefix_refl _)
    exact hqr.trans hrp
  · intro hqp
    exact ⟨q, rfl, hqp⟩

theorem all_isName (p : Path) : p.keys.all isName = true := by
  simp [Path.keys, isName]

/-- Only shared documents that names lead to are written to. -/
theorem foldl_setInGiven (shared : List Shared) (given : Document) :
    shared.foldl (setInGiven name p.keys v) given = (shared.filter IsNamed).foldl (setInGiven name p.keys v) given := by
  induction shared generalizing given with
  | nil => rfl
  | cons s shared ih =>
    rw [List.filter_cons, List.foldl_cons, ih]
    cases hs : IsNamed s with
    | true => rfl
    | false =>
      have hnot : ¬s.inResult.isPrefixOf p.keys = true := by
        intro hprefix
        obtain ⟨q, hq, -⟩ := isPrefixOf_keys_iff.mp hprefix
        rw [IsNamed, hq, all_isName] at hs
        cases hs
      rw [setInGiven, if_neg hnot, if_neg Bool.false_ne_true]

theorem setInGiven_sharedUnder (pair : String × String) : setInGiven name p.keys v given (sharedUnder pair) =
    if placeOf pair <+: p then
      modifyAt [.text pair.1, .text pair.2] (setBelow name (Path.keys (p.drop (placeOf pair).length)) v) given
    else given := by
  have hdrop : p.keys.drop (placeOf pair).keys.length = Path.keys (p.drop (placeOf pair).length) := by
    simp [Path.keys]
  rw [setInGiven, sharedUnder]
  simp only [keys_isPrefixOf_keys, hdrop]

/-- What is merged replaces a shared document if it overwrites the place of that one. -/
theorem any_isPrefixOf (hv : writable? v = some (kind, fields)) (p q : Path) :
    ((fields.map fun f => p.keys ++ [f.1]).any fun r => r.isPrefixOf q.keys) = overwrites v p q := by
  have hheld (key : Value) : v.reached? [key] = Dictionary.get? key fields := by
    simp [Value.reached?, hv]
  rw [Bool.eq_iff_iff, overwrites_iff, List.any_eq_true]
  constructor
  · rintro ⟨r, hr, hprefix⟩
    obtain ⟨f, hf, rfl⟩ := List.mem_map.mp hr
    obtain ⟨t, ht, hprefix⟩ := isPrefixOf_keys_iff.mp hprefix
    obtain ⟨rest, hrest⟩ := Path.keys_prefix_iff.mpr hprefix
    rw [← ht, List.append_assoc, List.singleton_append] at hrest
    have hname : isName f.1 = true := List.all_eq_true.mp (all_isName t) _ (ht ▸ by simp)
    have hself : (f.1 == f.1) = true := by
      cases hf1 : f.1 with
      | text s => exact Value.text_beq_text s s ▸ beq_self_eq_true s
      | _ => simp [hf1, isName] at hname
    exact ⟨f.1, rest, hrest.symm, hheld f.1 ▸ Dictionary.isSome_get? hself hf⟩
  · rintro ⟨key, rest, hq, hsome⟩
    obtain ⟨a, b, rfl, ha, hb⟩ := List.map_eq_append_iff.mp hq
    obtain ⟨s, b, rfl, rfl, -⟩ := List.map_eq_cons_iff.mp hb
    obtain ⟨w, hw⟩ := Option.isSome_iff_exists.mp (hheld (.text s) ▸ hsome)
    obtain ⟨k, hk, hmem⟩ := Dictionary.exists_mem_of_get? hw
    obtain rfl := (Value.beq_text k s).mp hk
    refine ⟨_, List.mem_map.mpr ⟨_, hmem, rfl⟩, isPrefixOf_keys_iff.mpr ⟨a ++ [s], ?_, by simp⟩⟩
    simpa [Path.keys] using ha.symm

/-- The documents in a value that are shared under names are those that it holds under names. -/
theorem filter_merged (hv : writable? v = some (kind, fields)) (name : String) :
    ((fields.filter fun f => f.2.isWritableDocument).map fun f =>
        (⟨(Path.ofText name).keys ++ [f.1], [.text name, f.1]⟩ : Shared)).filter IsNamed =
      ((nestedNames v).map fun f => (name, f)).map sharedUnder := by
  have hnamed (key : Value) : IsNamed ⟨(Path.ofText name).keys ++ [key], [.text name, key]⟩ = isName key := by
    simp [IsNamed, all_isName, List.all_append]
  have hnames : nestedNames v = fields.filterMap nestedName? := by
    rw [nestedNames, hv]
  rw [hnames]
  clear hv hnames
  induction fields with
  | nil => rfl
  | cons f fields ih =>
    obtain ⟨key, w⟩ := f
    rw [List.filter_cons, List.filterMap_cons]
    cases hw : w.isWritableDocument with
    | false => cases key <;> simpa [nestedName?, hw] using ih
    | true =>
      rw [if_pos rfl, List.map_cons, List.filter_cons, hnamed, ih]
      cases key with
      | text f => simp [nestedName?, isName, hw, sharedUnder, placeOf, Path.keys]
      | _ => simp [nestedName?, isName]

/-- What is shared after a merge is what was shared and is not replaced, and the documents of the one that is merged. -/
theorem filter_sharedByMerge (hv : writable? v = some (kind, fields))
    (hshared : shared.filter IsNamed = pairs.map sharedUnder) :
    (sharedByMerge (.text name) (Path.ofText name).keys fields shared).filter IsNamed =
      ((pairs.filter fun pair => !overwrites v (Path.ofText name) (placeOf pair)) ++
        (nestedNames v).map fun f => (name, f)).map sharedUnder := by
  have hkept : (shared.filter fun s => !(fields.map fun f => (Path.ofText name).keys ++ [f.1]).any
        fun r => r.isPrefixOf s.inResult).filter IsNamed =
      (pairs.filter fun pair => !overwrites v (Path.ofText name) (placeOf pair)).map sharedUnder := by
    rw [List.filter_comm, hshared, List.filter_map]
    congr 1
    apply List.filter_congr
    intro pair _
    rw [Function.comp_apply, sharedUnder, any_isPrefixOf hv]
  rw [sharedByMerge, List.filter_append, hkept, filter_merged hv, List.map_append]

theorem mem_nestedNames : f ∈ nestedNames v ↔ (writable? v).isSome = true ∧ ∃ w, v.HoldsDocument f w := by
  cases hv : writable? v with
  | none => simp [nestedNames, hv]
  | some given =>
    obtain ⟨kind, fields⟩ := given
    obtain ⟨rfl, -⟩ := exists_of_writable? hv
    have hnames : nestedNames (.document kind fields) = fields.filterMap nestedName? := by rw [nestedNames, hv]
    rw [hnames, List.mem_filterMap]
    constructor
    · rintro ⟨⟨key, w⟩, hmem, hname⟩
      obtain ⟨rfl, hw⟩ := nestedName?_eq_some.mp hname
      exact ⟨rfl, w, kind, fields, rfl, hmem, hw⟩
    · rintro ⟨-, w, _, _, hsame, hmem, hw⟩
      obtain ⟨rfl, rfl⟩ := Value.document.inj hsame
      exact ⟨_, hmem, nestedName?_eq_some.mpr ⟨rfl, hw⟩⟩

theorem nodup_nestedNames (h : v.HasDistinctKeys) : (nestedNames v).Nodup := by
  rw [nestedNames]
  split
  · next kind fields hv =>
    refine List.Pairwise.filterMap nestedName? ?_ (h _ hv)
    intro field other hne name hname name' hname' hsame
    rw [(nestedName?_eq_some.mp hname).1, (nestedName?_eq_some.mp hname').1, hsame] at hne
    simp at hne
  · exact List.nodup_nil

theorem not_prefix_of_overwrites (h : overwrites v p q = true) : ¬q <+: p := by
  obtain ⟨key, rest, hq, -⟩ := overwrites_iff.mp h
  intro hprefix
  have hlength := congrArg List.length hq
  have hle := hprefix.length_le
  simp [Path.keys] at hlength
  omega

end Sharing

end EntityStore

import EntityStore.Proofs.Document.Outline
import EntityStore.Proofs.Document.RoundTrip

namespace EntityStore

open Document Flatten

namespace Flatten

/-- The fields of an entity, ready for storage, before those that are stored under one name become one. -/
def givenFields (entity : Value) : Except Failure (List (Value × Value)) :=
  match entity with
  | .record .object attributes _ => preparedAttributes (attributes.filter fun a => !isPrivate a.1)
  | _ => fields entity

/-- Whether no two attributes of an object are stored under one name. -/
def StoresApart : Value → Prop
  | .record .object attributes _ =>
    (attributes.filter fun a => !isPrivate a.1).Pairwise fun a b => storedName a.1 ≠ storedName b.1
  | _ => True

/-- Whether no two leaves have one name. -/
def HaveNamesApart (ls : List (List Value × Value)) : Prop := ls.Pairwise fun l k => dottedName l.1 ≠ dottedName k.1

/-- Whether leaves have these names, in their order. -/
def AreNamed (ls : List (List Value × Value)) (es : List (String × Value)) : Prop :=
  (ls.map fun l => (dottedName l.1, l.2)) = es.map fun e => (.ok e.1, e.2)

variable {ls : List (List Value × Value)} {es : List (String × Value)} {keys : List Value}

theorem AreNamed.haveNamesApart_iff (h : AreNamed ls es) : HaveNamesApart ls ↔ es.Pairwise fun e f => e.1 ≠ f.1 := by
  have hnames : (ls.map fun l => dottedName l.1) = es.map fun e => .ok e.1 := by
    simpa [Function.comp_def] using congrArg (List.map Prod.fst) h
  have hleft : HaveNamesApart ls ↔ (ls.map fun l => dottedName l.1).Pairwise (· ≠ ·) := List.pairwise_map.symm
  rw [hleft, hnames, List.pairwise_map]
  simp

theorem AreNamed.length_eq (h : AreNamed ls es) : ls.length = es.length := by
  simpa using congrArg List.length h

theorem exists_areNamed {entries : List (Value × Value)} (h : ls.mapM field = .ok entries) :
    ∃ es, entries = named es ∧ AreNamed ls es := by
  induction ls generalizing entries with
  | nil =>
    obtain rfl := Except.ok.inj h
    exact ⟨[], rfl, rfl⟩
  | cons l ls ih =>
    rw [List.mapM_cons] at h
    obtain ⟨entry, hentry, h⟩ := Outcome.bind_eq_ok.mp h
    obtain ⟨rest, hrest, h⟩ := Outcome.bind_eq_ok.mp h
    obtain rfl := Except.ok.inj h
    obtain ⟨name, hname, hentry⟩ := Outcome.bind_eq_ok.mp hentry
    obtain rfl := Except.ok.inj hentry
    obtain ⟨es, rfl, hes⟩ := ih hrest
    refine ⟨(name, l.2) :: es, rfl, ?_⟩
    rw [AreNamed, List.map_cons, List.map_cons, hname]
    exact congrArg (List.cons _) hes

theorem exists_preparedAttributes {attributes : List (String × Value)} {given : List (Value × Value)}
    (h : preparedAttributes attributes = .ok given) :
    ∃ es, given = named es ∧ es.map (·.1) = attributes.map fun a => storedName a.1 := by
  induction attributes generalizing given with
  | nil =>
    obtain rfl := Except.ok.inj h
    exact ⟨[], rfl, rfl⟩
  | cons a attributes ih =>
    obtain ⟨v, _, h⟩ := Outcome.bind_eq_ok.mp h
    obtain ⟨rest, hrest, h⟩ := Outcome.bind_eq_ok.mp h
    obtain rfl := Except.ok.inj h
    obtain ⟨es, rfl, hes⟩ := ih hrest
    refine ⟨(storedName a.1, v) :: es, rfl, ?_⟩
    rw [List.map_cons, List.map_cons, hes]

mutual

/-- A value has a leaf. -/
theorem leaves_ne_nil (keys : List Value) : ∀ v : Value, leaves keys v ≠ []
  | .document .plain fields => by
    rw [leaves]
    split
    · exact List.cons_ne_nil _ _
    · exact fieldLeaves_ne_nil keys fields (by simpa using ‹¬fields.isEmpty = true›)
  | .document .ordered fields => by
    rw [leaves]
    split
    · exact List.cons_ne_nil _ _
    · exact fieldLeaves_ne_nil keys fields (by simpa using ‹¬fields.isEmpty = true›)
  | .document .readOnly _ | .null | .bool _ | .int _ | .float _ | .text _ | .bytes _ | .list _ | .tuple _
  | .set _ | .frozenSet _ | .timestamp _ | .date _ | .objectId _ | .decimal _ | .pattern _ | .url _
  | .direction _ | .entityId _ | .record _ _ _ | .thing | .recordType _ => List.cons_ne_nil _ _
termination_by structural v => v

theorem fieldLeaves_ne_nil (keys : List Value) : ∀ fs : List (Value × Value), fs ≠ [] → fieldLeaves keys fs ≠ []
  | [] => fun h => absurd rfl h
  | p :: _ => fun _ => List.append_ne_nil_of_left_ne_nil (fieldLeavesOf_ne_nil keys p) _
termination_by structural fs => fs

theorem fieldLeavesOf_ne_nil (keys : List Value) : ∀ p : Value × Value, fieldLeavesOf keys p ≠ []
  | (k, v) => leaves_ne_nil (keys ++ [k]) v
termination_by structural p => p

end

theorem fieldLeaves_named (es : List (String × Value)) :
    fieldLeaves [] (named es) = es.flatMap fun e => leaves [.text e.1] e.2 := by
  rw [fieldLeaves_eq_flatMap, named, List.flatMap_map]
  rfl

/-- Which of the fields of an entity count: all of them, unless attributes are stored under one name. The leaves of all
but one of these are lost. -/
structure Count (entity : Value) (given counted : List (Value × Value)) : Prop where
  length_le : (fieldLeaves [] counted).length ≤ (fieldLeaves [] given).length
  length_eq_iff : (fieldLeaves [] counted).length = (fieldLeaves [] given).length ↔ StoresApart entity
  eq : StoresApart entity → counted = given

theorem Count.all {entity : Value} (h : StoresApart entity) (given : List (Value × Value)) :
    Count entity given given :=
  ⟨Nat.le_refl _, ⟨fun _ => h, fun _ => rfl⟩, fun _ => rfl⟩

theorem exists_count {entity : Value} {counted : Document} (h : fields entity = .ok counted) :
    ∃ given, givenFields entity = .ok given ∧ Count entity given counted := by
  cases entity with
  | record kind attributes identity =>
    cases kind with
    | object =>
      obtain ⟨given, hgiven, h⟩ := Outcome.bind_eq_ok.mp h
      obtain rfl := Except.ok.inj h
      obtain ⟨es, rfl, hes⟩ := exists_preparedAttributes hgiven
      have hmerged : Dictionary.ofList (named es) = named (Dictionary.ofList es) := Dictionary.insertMany_named [] es
      have hleaves : ∀ e : String × Value, leaves [.text e.1] e.2 ≠ [] := fun e => leaves_ne_nil _ _
      have hapart : StoresApart (.record .object attributes identity) ↔ es.Pairwise fun e f => e.1 ≠ f.1 := by
        have hleft : es.Pairwise (fun e f => e.1 ≠ f.1) ↔ (es.map (·.1)).Pairwise (· ≠ ·) := List.pairwise_map.symm
        rw [hleft, hes, List.pairwise_map]
        rfl
      refine ⟨named es, hgiven, ?_, ?_, fun hstores => ?_⟩
      · rw [hmerged, fieldLeaves_named, fieldLeaves_named]
        exact Dictionary.length_flatMap_ofList_le hleaves es
      · rw [hmerged, fieldLeaves_named, fieldLeaves_named, hapart]
        exact Dictionary.length_flatMap_ofList_eq_iff hleaves es
      · have hkeys := (hapart.mp hstores).imp fun hne => beq_eq_false_iff_ne.mpr hne
        rw [hmerged, Dictionary.ofList_eq_self hkeys]
    | model | data => exact ⟨counted, h, .all (by trivial) counted⟩
  | _ => exact ⟨counted, h, .all (by trivial) counted⟩

/-- Keys that are segments are told apart by the names that they are joined to. -/
theorem dottedName_injective {p q : Path} (hp : ∀ s ∈ p, Path.IsSegment s) (hq : ∀ s ∈ q, Path.IsSegment s)
    (h : dottedName p.keys = dottedName q.keys) : p = q := by
  have hname {r : Path} (hr : ∀ s ∈ r, Path.IsSegment s) : dottedName r.keys = .ok r.text := by
    cases r with
    | nil => rfl
    | cons s r => exact dottedName_keys (List.cons_ne_nil s r) fun t ht => (hr t ht).1
  rw [hname hp, hname hq, Except.ok.injEq] at h
  cases p with
  | nil =>
    cases q with
    | nil => rfl
    | cons t q => exact absurd h.symm (Path.text_ne_empty (hq t List.mem_cons_self).1 q)
  | cons s p =>
    cases q with
    | nil => exact absurd h (Path.text_ne_empty (hp s List.mem_cons_self).1 p)
    | cons t q =>
      have hpath := Path.ofText_text (s :: p) (List.cons_ne_nil s p) fun u hu => (hp u hu).2
      rw [← hpath, h, Path.ofText_text (t :: q) (List.cons_ne_nil t q) fun u hu => (hq u hu).2]

/-- What is held under the names of leaves, in `es`, once an entity is flattened: the leaves of the fields that count,
as far as no later ones take their names. -/
structure HoldsLeaves (entity : Value) (given counted : List (Value × Value)) (es : List (String × Value)) : Prop where
  givenFields_eq : givenFields entity = .ok given
  fields_eq : fields entity = .ok counted
  /-- Each name is held once. -/
  distinct : es.Pairwise fun e f => e.1 ≠ f.1
  /-- What is held under a name is the last leaf of that name. -/
  last : ∃ ls, AreNamed (fieldLeaves [] counted) ls ∧
    ∀ e, e ∈ es ↔ ∃ after, e :: after <:+ ls ∧ ∀ f ∈ after, f.1 ≠ e.1
  /-- As many values are held as there are leaves just if no attributes are stored under one name and no leaves have
  one name. -/
  length_eq_iff : es.length = (fieldLeaves [] given).length ↔
    StoresApart entity ∧ HaveNamesApart (fieldLeaves [] given)
  /-- If nothing is lost, then the leaves are held in their order. -/
  areNamed : es.length = (fieldLeaves [] given).length → AreNamed (fieldLeaves [] given) es
  /-- Leaves at the ends of different paths of segments never have one name. -/
  eq_of_segments : ∀ l ∈ fieldLeaves [] given, ∀ k ∈ fieldLeaves [] given, ∀ p q : Path, l.1 = p.keys → k.1 = q.keys →
    (∀ s ∈ p ++ q, Path.IsSegment s) → dottedName l.1 = dottedName k.1 → l.1 = k.1

end Flatten

/-- A flattened entity holds under each name the last leaf of that name, and all leaves just if their names differ. -/
theorem flatten_holdsLeaves {entity : Value} {flat : Document} (h : flatten entity = .ok flat) :
    ∃ given counted es, flat = named es ∧ Flatten.HoldsLeaves entity given counted es := by
  obtain ⟨counted, hcounted, h⟩ := Outcome.bind_eq_ok.mp h
  obtain ⟨entries, hentries, h⟩ := Outcome.bind_eq_ok.mp h
  obtain rfl := Except.ok.inj h
  obtain ⟨given, hgiven, hcount⟩ := exists_count hcounted
  have hleaves : (counted.flatMap fun f => leaves [f.1] f.2) = fieldLeaves [] counted :=
    (fieldLeaves_eq_flatMap [] counted).symm
  rw [hleaves] at hentries
  obtain ⟨ls, rfl, hnamed⟩ := exists_areNamed hentries
  have hle := Dictionary.length_ofList_le ls
  have hdistinct := Dictionary.length_ofList_eq_iff ls
  have hlength := hnamed.length_eq
  have hkept : (Dictionary.ofList ls).length = (fieldLeaves [] given).length ↔
      StoresApart entity ∧ HaveNamesApart (fieldLeaves [] given) := by
    have hfields := hcount.length_le
    constructor
    · intro heq
      have hapart : StoresApart entity := hcount.length_eq_iff.mp (by omega)
      rw [← hcount.eq hapart]
      exact ⟨hapart, hnamed.haveNamesApart_iff.mpr (hdistinct.mp (by omega))⟩
    · rintro ⟨hapart, hnames⟩
      rw [← hcount.eq hapart] at hnames ⊢
      rw [hdistinct.mpr (hnamed.haveNamesApart_iff.mp hnames), hlength]
  refine ⟨given, counted, Dictionary.ofList ls, Dictionary.insertMany_named [] ls, hgiven, hcounted, ?_, ?_, hkept, ?_,
    ?_⟩
  · exact Dictionary.pairwise_insertMany .nil
  · exact ⟨ls, hnamed, fun _ => Dictionary.mem_ofList_iff⟩
  · intro heq
    obtain ⟨hapart, hnames⟩ := hkept.mp heq
    rw [← hcount.eq hapart] at hnames ⊢
    have hkeys := (hnamed.haveNamesApart_iff.mp hnames).imp fun hne => beq_eq_false_iff_ne.mpr hne
    rw [Dictionary.ofList_eq_self hkeys]
    exact hnamed
  · intro l _ k _ p q hp hq hsegments hname
    rw [hp, hq] at hname ⊢
    have hpath := dottedName_injective (fun s hs => hsegments s (List.mem_append_left q hs))
      (fun s hs => hsegments s (List.mem_append_right p hs)) hname
    rw [hpath]

/-- An object with two attributes for its name, and a home with two places for one name. -/
def renamed : Value :=
  .record .object
    [("_name", .text "Ken"), ("name", .text "Bo"), ("__key", .int 1),
      ("home", .plain [(.text "a.b", .int 1), (.text "a", .plain [(.text "b", .int 2)])])] .absent

theorem flatten_holdsLeaves_renamed :
    flatten renamed = .ok (named [("name", .text "Bo"), ("home.a.b", .int 2)]) ∧
      ∃ given counted es, named [("name", .text "Bo"), ("home.a.b", .int 2)] = named es ∧
        Flatten.HoldsLeaves renamed given counted es :=
  have hflat : flatten renamed = .ok (named [("name", .text "Bo"), ("home.a.b", .int 2)]) := by rfl
  ⟨hflat, flatten_holdsLeaves hflat⟩

end EntityStore

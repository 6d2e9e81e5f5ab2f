import EntityStore.Proofs.Document.Setting

namespace EntityStore

open Document Expand

namespace Expand

variable {name : String} {p : Path} {v w : Value} {d e : Document} {q : KeyPath} {fields : List (String × Value)}
  {f : String × Value}

/-- What stands in the way of a value that is set under a name: another value, on the way or at the end, or a view
in it that cannot be copied. -/
def IsObstacle (name : String) (v : Value) (e : Failure) : Prop :=
  e = .fieldSetTwice name ∨ (∃ part, e = .pathThroughScalar name part) ∨ (e = Value.viewRefusal ∧ v.holdsView = true)

theorem isObstacle_setAt {e : Failure} (hp : p ≠ []) (h : setAt name p.keys v d = .error e) : IsObstacle name v e := by
  induction p generalizing d with
  | nil => exact absurd rfl hp
  | cons s p ih =>
    cases p with
    | nil =>
      have hset : setLeaf name (.text s) v d = .error e := h
      rw [setLeaf] at hset
      split at hset
      · cases hcopy : copied v with
        | ok copy =>
          rw [hcopy] at hset
          cases hset
        | error refusal =>
          rw [hcopy] at hset
          obtain rfl := Except.error.inj hset
          rw [copied] at hcopy
          split at hcopy
          · next hview =>
            simp only [Bool.and_eq_true] at hview
            exact .inr (.inr ⟨(Except.error.inj hcopy).symm, hview.2⟩)
          · cases hcopy
      · split at hset
        · cases hset
        · exact .inl (Except.error.inj hset).symm
    | cons t p =>
      rcases setAt_below name s t p v d with ⟨kind, fields, -, -, hset⟩ | ⟨part, hset⟩
      · rw [hset] at h
        cases hbelow : setAt name (Path.keys (t :: p)) v fields with
        | ok changed =>
          rw [hbelow] at h
          cases h
        | error refusal =>
          rw [hbelow] at h
          obtain rfl := Except.error.inj h
          exact ih (List.cons_ne_nil t p) hbelow
      · rw [hset] at h
        exact .inr (.inl ⟨part, (Except.error.inj h).symm⟩)

theorem plain_ne_readOnly : DocumentKind.plain ≠ .readOnly := by decide

/-- A field that is set under a dotted name is set at the end of its path. -/
theorem setField_named (f : String × Value) (d : Document) :
    setField d (.text f.1, f.2) = setAt f.1 (Path.ofText f.1).keys f.2 d := rfl

/-- Whether the last of some fields to bring anything to the end of some keys brings this value. -/
def HoldsLast (fields : List (String × Value)) (q : KeyPath) (w : Value) : Prop :=
  ∃ f after, f :: after <:+ fields ∧ Brings (Path.ofText f.1) f.2 q w ∧ ∀ g ∈ after, ¬Overwrites (Path.ofText g.1) g.2 q

theorem holdsLast_cons : HoldsLast (f :: fields) q w ↔
    HoldsLast fields q w ∨ (Brings (Path.ofText f.1) f.2 q w ∧ ∀ g ∈ fields, ¬Overwrites (Path.ofText g.1) g.2 q) := by
  constructor
  · rintro ⟨g, after, hsuffix, hg⟩
    rcases List.suffix_cons_iff.mp hsuffix with hall | hsuffix
    · obtain ⟨rfl, rfl⟩ := List.cons.inj hall
      exact .inr hg
    · exact .inl ⟨g, after, hsuffix, hg⟩
  · rintro (⟨g, after, hsuffix, hg⟩ | hf)
    · exact ⟨g, after, hsuffix.trans (List.suffix_cons f fields), hg⟩
    · exact ⟨f, fields, List.suffix_refl _, hf⟩

/-- Setting fields one after the other keeps what the last of them bring, and what none of them overwrites. -/
theorem reached?_setFields_of_kept (hfields : ∀ f ∈ fields, f.2.HasDistinctKeys) (hq : ∀ k ∈ q, k.IsKey)
    (h : (named fields).foldlM setField d = .ok e)
    (hw : HoldsLast fields q w ∨
      ((Value.plain d).reached? q = some w ∧ ∀ f ∈ fields, ¬Overwrites (Path.ofText f.1) f.2 q)) :
    ∃ w', (Value.plain e).reached? q = some w' ∧ w.IsKeptAs w' := by
  induction fields generalizing d w with
  | nil =>
    obtain rfl := Except.ok.inj h
    rcases hw with ⟨f, after, hsuffix, -⟩ | ⟨hw, -⟩
    · exact absurd (List.suffix_nil.mp hsuffix) (List.cons_ne_nil f after)
    · exact ⟨w, hw, .refl w⟩
  | cons f fields ih =>
    obtain ⟨hf, hrest⟩ := List.forall_mem_cons.mp hfields
    rw [named, List.map_cons, List.foldlM_cons, setField_named] at h
    obtain ⟨first, hfirst, h⟩ := Outcome.bind_eq_ok.mp h
    have hone : HoldsLast fields q w ∨ (∃ u, (Value.plain first).reached? q = some u ∧ w.IsKeptAs u) ∧
        ∀ g ∈ fields, ¬Overwrites (Path.ofText g.1) g.2 q := by
      have hstep := reached?_setAt_of_kept (w := w) (Path.ofText_ne_nil f.1) plain_ne_readOnly hq hf hfirst
      rw [holdsLast_cons] at hw
      rcases hw with (hlast | ⟨hbrings, hafter⟩) | ⟨hold, hafter⟩
      · exact .inl hlast
      · exact .inr ⟨hstep (.inl hbrings), hafter⟩
      · obtain ⟨hfkept, hafter⟩ := List.forall_mem_cons.mp hafter
        exact .inr ⟨hstep (.inr ⟨hold, hfkept⟩), hafter⟩
    rcases hone with hlast | ⟨⟨u, hu, hwu⟩, hafter⟩
    · exact ih hrest h (.inl hlast)
    · obtain ⟨w', hw', huw'⟩ := ih hrest h (.inr ⟨hu, hafter⟩)
      exact ⟨w', hw', hwu.trans huw'⟩

/-- What is reached then, if no other value can be merged with it, was brought by the last of them, or kept by all. -/
theorem kept_of_reached?_setFields (hfields : ∀ f ∈ fields, f.2.HasDistinctKeys) (hq : ∀ k ∈ q, k.IsKey)
    (h : (named fields).foldlM setField d = .ok e) (hw : writable? w = none)
    (hreached : (Value.plain e).reached? q = some w) :
    HoldsLast fields q w ∨
      ((Value.plain d).reached? q = some w ∧ ∀ f ∈ fields, ¬Overwrites (Path.ofText f.1) f.2 q) := by
  induction fields generalizing d with
  | nil =>
    obtain rfl := Except.ok.inj h
    exact .inr ⟨hreached, List.forall_mem_nil _⟩
  | cons f fields ih =>
    obtain ⟨hf, hrest⟩ := List.forall_mem_cons.mp hfields
    rw [named, List.map_cons, List.foldlM_cons, setField_named] at h
    obtain ⟨first, hfirst, h⟩ := Outcome.bind_eq_ok.mp h
    rw [holdsLast_cons]
    rcases ih hrest h with hlast | ⟨hkept, hafter⟩
    · exact .inl (.inl hlast)
    · have hstep := kept_of_reached?_setAt (Path.ofText_ne_nil f.1) plain_ne_readOnly hq hf hfirst hw hkept
      rcases hstep with hbrings | ⟨hold, hfkept⟩
      · exact .inl (.inr ⟨hbrings, hafter⟩)
      · exact .inr ⟨hold, List.forall_mem_cons.mpr ⟨hfkept, hafter⟩⟩

theorem exists_isObstacle_of_setFields {e : Failure} (h : (named fields).foldlM setField d = .error e) :
    ∃ f ∈ fields, IsObstacle f.1 f.2 e := by
  induction fields generalizing d with
  | nil => exact nomatch h
  | cons f fields ih =>
    rw [named, List.map_cons, List.foldlM_cons, setField_named] at h
    cases hfirst : setAt f.1 (Path.ofText f.1).keys f.2 d with
    | error refusal =>
      rw [hfirst] at h
      obtain rfl := Except.error.inj h
      exact ⟨f, List.mem_cons_self, isObstacle_setAt (Path.ofText_ne_nil f.1) hfirst⟩
    | ok first =>
      rw [hfirst] at h
      obtain ⟨g, hg, hobstacle⟩ := ih h
      exact ⟨g, List.mem_cons_of_mem f hg, hobstacle⟩

end Expand

/-- Fields under dotted names expand to a document that holds what they bring, wherever no later one overwrites it:
a document, with others merged into it, or the value itself. It holds no other values. Or something stands in the way
of one of the fields. -/
theorem expand_keeps (kind : DocumentKind) {fields : List (String × Value)}
    (hfields : ∀ f ∈ fields, f.2.HasDistinctKeys) :
    match expand (.document kind (named fields)) with
    | .error e => ∃ f ∈ fields, IsObstacle f.1 f.2 e
    | .ok d => ∀ (q : KeyPath) (w : Value), (∀ k ∈ q, k.IsKey) →
      (HoldsLast fields q w → ∃ w', (Value.plain d).reached? q = some w' ∧ w.IsKeptAs w') ∧
      (writable? w = none → (Value.plain d).reached? q = some w → HoldsLast fields q w) := by
  have hexpand : expand (.document kind (named fields)) = (named fields).foldlM Expand.setField [] := rfl
  split
  · next e he => exact exists_isObstacle_of_setFields (hexpand ▸ he)
  · next d hd =>
    rw [hexpand] at hd
    intro q w hq
    constructor
    · intro hlast
      exact reached?_setFields_of_kept hfields hq hd (.inl hlast)
    · intro hw hreached
      refine (kept_of_reached?_setFields hfields hq hd hw hreached).resolve_right fun hnothing => ?_
      cases q with
      | nil =>
        obtain rfl := Option.some.inj hnothing.1
        exact nomatch hw
      | cons key q => exact nomatch hnothing.1

/-- An address with a city, and one without it that is merged into the first and overwrites the street. -/
def moved : List (String × Value) :=
  [("address.street", .text "Elm"), ("address.city", .text "Oslo"),
    ("address", .plain [(.text "street", .text "Ash"), (.int 5, .plain [])])]

/-- The city is kept, and so is what the second address holds under a number. -/
theorem expand_keeps_moved : ∃ d, expand (.plain (named moved)) = .ok d ∧
    (Value.plain d).reached? [.text "address", .text "city"] = some (.text "Oslo") ∧
    ∃ w, (Value.plain d).reached? [.text "address", .int 5] = some w ∧ (Value.plain []).IsKeptAs w := by
  have hcity : Path.ofText "address.city" = ["address", "city"] := by decide +kernel
  have haddress : Path.ofText "address" = ["address"] := by decide +kernel
  have hfields : ∀ f ∈ moved, f.2.HasDistinctKeys := by
    simp [moved, Value.HasDistinctKeys, writable?]
    rfl
  have hcityKeys : ∀ k ∈ [Value.text "address", .text "city"], k.IsKey := by simp [Value.isKey_text]
  have hnumberKeys : ∀ k ∈ [Value.text "address", .int 5], k.IsKey := by
    simp [Value.isKey_text, Value.isKey_number (k := .int 5) rfl]
  have hexpanded := @expand_keeps .plain moved hfields
  split at hexpanded
  · next e he => exact nomatch he
  · next d hd =>
    refine ⟨d, hd, ?_, ?_⟩
    · have hlast : HoldsLast moved [.text "address", .text "city"] (.text "Oslo") := by
        refine ⟨_, _, ⟨[_], rfl⟩, ⟨[], by rw [hcity]; rfl, rfl⟩, List.forall_mem_singleton.mpr ?_⟩
        rintro ⟨key, r, hq, hsome⟩
        rw [haddress] at hq
        obtain ⟨-, hq⟩ := List.cons.inj hq
        obtain ⟨rfl, -⟩ := List.cons.inj hq
        exact absurd hsome (by decide +kernel)
      obtain ⟨w, hw, hkept⟩ := (hexpanded _ _ hcityKeys).1 hlast
      rw [hw, hkept.solid rfl]
    · refine (hexpanded _ _ hnumberKeys).1 ?_
      exact ⟨_, [], ⟨[_, _], rfl⟩, ⟨[.int 5], by rw [haddress]; rfl, rfl⟩, List.forall_mem_nil _⟩

end EntityStore

import EntityStore.Proofs.Dictionary
import EntityStore.Proofs.Filter.Arrangement
import Mathlib.Data.List.Induction

namespace EntityStore

section Grouping

variable {α β κ : Type} [BEq κ] [LawfulBEq κ]

theorem distinct_append_one (ks : List κ) (k : κ) :
    distinct (ks ++ [k]) = if ks.contains k then distinct ks else distinct ks ++ [k] := by
  induction ks with
  | nil => rfl
  | cons j ks ih =>
    rw [List.cons_append, distinct, distinct, ih]
    by_cases hj : j = k
    · subst hj
      cases ks.contains j <;> simp
    · have hkj : (k == j) = false := beq_eq_false_iff_ne.mpr (Ne.symm hj)
      cases hk : ks.contains k <;> simp_all

theorem Dictionary.get?_map_keys (value : κ → β) (ks : List κ) (k : κ) :
    Dictionary.get? k (ks.map fun j => (j, value j)) = if ks.contains k then some (value k) else none := by
  induction ks with
  | nil => rfl
  | cons j ks ih =>
    rw [List.map_cons, Dictionary.get?, ih]
    by_cases hj : j = k
    · simp [hj]
    · have hkj : (k == j) = false := beq_eq_false_iff_ne.mpr (Ne.symm hj)
      simp [hj, hkj]

theorem Dictionary.insert_map_keys (value : κ → β) {ks : List κ} (hks : ks.Nodup) (k : κ) (v : β) :
    Dictionary.insert k v (ks.map fun j => (j, value j)) =
      (if ks.contains k then ks else ks ++ [k]).map fun j => (j, if j == k then v else value j) := by
  induction ks with
  | nil => simp [Dictionary.insert]
  | cons j ks ih =>
    obtain ⟨hmem, hrest⟩ := List.nodup_cons.mp hks
    rw [List.map_cons, Dictionary.insert, ih hrest]
    by_cases hj : j = k
    · subst hj
      have hothers : (ks.map fun i => (i, if i == j then v else value i)) = ks.map fun i => (i, value i) := by
        refine List.map_congr_left fun i hi => ?_
        have hij : i ≠ j := fun h => hmem (h ▸ hi)
        simp [hij]
      simp [hothers]
    · have hkj : k ≠ j := Ne.symm hj
      by_cases hk : k ∈ ks
      · simp [hj, hkj, hk]
      · simp [hj, hkj, hk]

/-- What elements with the same key come to, under each key. -/
def grouped (key : α → κ) (value : List α → β) (xs : List α) : Dictionary κ β :=
  (distinct (xs.map key)).map fun k => (k, value (xs.filter fun x => key x == k))

variable (key : α → κ) (value : List α → β) (xs : List α)

theorem get?_grouped (k : κ) :
    (Dictionary.get? k (grouped key value xs)).getD (value []) = value (xs.filter fun x => key x == k) := by
  rw [grouped, Dictionary.get?_map_keys fun k => value (xs.filter fun x => key x == k)]
  split
  · rfl
  · next hk =>
    have hnone : (xs.filter fun x => key x == k) = [] := by
      rw [List.filter_eq_nil_iff]
      intro x hx hkey
      have hmem : k ∈ distinct (xs.map key) :=
        (mem_distinct _ k).mpr (beq_iff_eq.mp hkey ▸ List.mem_map_of_mem hx)
      exact hk (List.contains_iff_mem.mpr hmem)
    rw [hnone]
    rfl

/-- One more element changes what stands under its key, or adds the key at the end. -/
theorem grouped_append_one (x : α) : grouped key value (xs ++ [x]) =
    Dictionary.insert (key x) (value ((xs.filter fun y => key y == key x) ++ [x])) (grouped key value xs) := by
  have hvalue (k : κ) : ((xs ++ [x]).filter fun y => key y == k) =
      if k == key x then (xs.filter fun y => key y == key x) ++ [x] else xs.filter fun y => key y == k := by
    by_cases hk : k = key x
    · simp [hk]
    · have hne : (key x == k) = false := beq_eq_false_iff_ne.mpr (Ne.symm hk)
      simp [hk, hne]
  have hcontains : (distinct (xs.map key)).contains (key x) = (xs.map key).contains (key x) := by
    rw [Bool.eq_iff_iff, List.contains_iff_mem, List.contains_iff_mem, mem_distinct]
  rw [grouped, grouped, Dictionary.insert_map_keys _ (nodup_distinct _), hcontains, List.map_append,
    List.map_singleton, distinct_append_one]
  refine List.map_congr_left fun k _ => ?_
  rw [hvalue, apply_ite value]

end Grouping

/-- What fields of one kind of test are tested against. -/
abbrev FieldEntries := Dictionary String (List Value)

abbrev FilterEntries := Dictionary TestKind FieldEntries

namespace FieldEntries

def record (field : String) (v : Value) (es : FieldEntries) : FieldEntries :=
  Dictionary.insert field ((Dictionary.get? field es).getD [] ++ [v]) es

def AreFilled (es : FieldEntries) : Prop := es ≠ [] ∧ ∀ entry ∈ es, entry.2 ≠ []

theorem areFilled_record {es : FieldEntries} (h : ∀ entry ∈ es, entry.2 ≠ []) (field : String) (v : Value) :
    (es.record field v).AreFilled :=
  ⟨Dictionary.insert_ne_nil, Dictionary.forall_insert (P := fun values => values ≠ []) (by simp) h⟩

end FieldEntries

namespace FilterEntries

/-- Puts what a predicate tests against at the end of the values of its kind and field. -/
def record (p : Predicate) (es : FilterEntries) : FilterEntries :=
  let fields : FieldEntries := (Dictionary.get? p.test.kind es).getD []
  Dictionary.insert p.test.kind (fields.record p.field p.test.operand) es

/-- Each kind has a field, and each field a value. -/
def AreFilled (es : FilterEntries) : Prop := ∀ entry ∈ es, FieldEntries.AreFilled entry.2

theorem AreFilled.record {es : FilterEntries} (h : es.AreFilled) (p : Predicate) :
    (es.record p).AreFilled := by
  refine Dictionary.forall_insert (FieldEntries.areFilled_record ?_ _ _) h
  cases hkind : Dictionary.get? p.test.kind es with
  | none => simp
  | some fields => exact (h _ (Dictionary.mem_of_get? hkind)).2

/-- What is tested against what: by kind, and within a kind by field, in the order of the entries. -/
def walked (es : FilterEntries) : List (TestKind × String × Value) :=
  TestKind.all.flatMap fun kind =>
    let fields : FieldEntries := (Dictionary.get? kind es).getD []
    fields.flatMap fun entry => entry.2.map fun v => (kind, entry.1, v)

end FilterEntries

namespace Clause

def operands (c : Clause) : List Value := c.map fun p => p.test.operand

theorem operands_append_one (c : Clause) (p : Predicate) :
    operands (c ++ [p]) = c.operands ++ [p.test.operand] := List.map_append

/-- What the fields are tested against, whatever the kinds of the tests. -/
def fieldEntries (c : Clause) : FieldEntries := grouped (fun p : Predicate => p.field) operands c

theorem entries_eq_grouped (c : Clause) :
    c.entries = grouped (fun p : Predicate => p.test.kind) fieldEntries c := rfl

theorem fieldEntries_append_one (c : Clause) (p : Predicate) :
    fieldEntries (c ++ [p]) = (fieldEntries c).record p.field p.test.operand := by
  have hvalues : (Dictionary.get? p.field c.fieldEntries).getD [] = operands (c.onField p.field) :=
    get?_grouped (fun q : Predicate => q.field) operands c p.field
  rw [fieldEntries, grouped_append_one, operands_append_one, FieldEntries.record, hvalues]
  rfl

/-- A predicate that is added is recorded under its kind and field. -/
theorem entries_append_one (c : Clause) (p : Predicate) :
    entries (c ++ [p]) = FilterEntries.record p c.entries := by
  have hfields : (Dictionary.get? p.test.kind c.entries).getD [] = fieldEntries (c.ofKind p.test.kind) :=
    get?_grouped (fun q : Predicate => q.test.kind) fieldEntries c p.test.kind
  rw [entries_eq_grouped, grouped_append_one, fieldEntries_append_one, FilterEntries.record, hfields]
  rfl

/-- Going through the entries kind by kind meets the predicates as they are arranged for a query. -/
theorem walked_entries (c : Clause) :
    FilterEntries.walked c.entries = c.arranged.map fun p => (p.test.kind, p.field, p.test.operand) := by
  rw [FilterEntries.walked, arranged, List.map_flatMap]
  refine List.flatMap_congr fun kind _ => ?_
  have hfields : (Dictionary.get? kind c.entries).getD [] = fieldEntries (c.ofKind kind) :=
    get?_grouped (fun q : Predicate => q.test.kind) fieldEntries c kind
  have hfield (field : String) : (operands ((c.ofKind kind).onField field)).map (fun v => (kind, field, v)) =
      ((c.ofKind kind).onField field).map fun p => (p.test.kind, p.field, p.test.operand) := by
    rw [operands, List.map_map]
    refine List.map_congr_left fun p hp => ?_
    obtain ⟨hmem, hsame⟩ := List.mem_filter.mp hp
    have hkind := (List.mem_filter.mp hmem).2
    rw [Function.comp_apply, beq_iff_eq.mp hsame, beq_iff_eq.mp hkind]
  rw [byField, List.map_flatMap]
  change List.flatMap _ ((Dictionary.get? kind c.entries).getD []) = _
  rw [hfields, fieldEntries, grouped, List.flatMap_map]
  exact List.flatMap_congr fun field _ => hfield field

theorem areFilled_entries (c : Clause) : FilterEntries.AreFilled c.entries := by
  induction c using List.reverseRec with
  | nil => simp [FilterEntries.AreFilled, entries, kinds, distinct]
  | append_singleton c p ih =>
    rw [entries_append_one]
    exact ih.record p

/-- A group is without predicates if no kind has a field. -/
theorem eq_nil_iff_entries (c : Clause) : c = [] ↔ ∀ entry ∈ c.entries, entry.2 = [] := by
  constructor
  · rintro rfl
    exact List.forall_mem_nil _
  · intro h
    by_contra hne
    obtain ⟨p, hp⟩ := List.exists_mem_of_ne_nil c hne
    have hkind : p.test.kind ∈ c.kinds := (mem_distinct _ _).mpr (List.mem_map_of_mem hp)
    have hentry := List.mem_map_of_mem (f := fun kind => (kind, fieldEntries (c.ofKind kind))) hkind
    exact (areFilled_entries c _ hentry).1 (h _ hentry)

end Clause

end EntityStore

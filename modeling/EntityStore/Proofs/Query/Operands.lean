import EntityStore.Proofs.Query.Failing
import EntityStore.Proofs.Query.Joining
import EntityStore.Proofs.Value.Coercion

namespace EntityStore

open Mapping (nativeField)
open QueryDocument (conditions)

/-- A value that an operator takes for a field. -/
structure Operand where
  field : String
  operator : String
  value : Value

namespace QueryDocument

def operandsUnder (field : String) (operators : List (Value × Value)) : List Operand :=
  operators.flatMap fun
    | (.text operator, v) => if takesValue operator then [⟨field, operator, v⟩] else []
    | _ => []

mutual

/-- What the operators of a query document take, wherever the document joins queries. -/
def operands : Value → List Operand
  | .document .plain entries => operandsOfEntries entries
  | _ => []
termination_by structural v => v

def operandsOfEntries : List (Value × Value) → List Operand
  | [] => []
  | e :: es => operandsOfEntry e ++ operandsOfEntries es
termination_by structural es => es

def operandsOfEntry : Value × Value → List Operand
  | (.text name, .list queries) => if joins name then operandsOfAll queries else []
  | (.text field, .document .plain operators) => operandsUnder field operators
  | _ => []
termination_by structural e => e

def operandsOfAll : List Value → List Operand
  | [] => []
  | q :: qs => operands q ++ operandsOfAll qs
termination_by structural qs => qs

end

theorem operands_single (name : String) (v : Value) : operands (.single name v) = operandsOfEntry (.text name, v) := by
  rw [operands, operandsOfEntries, operandsOfEntries, List.append_nil]

/-- A field with anything but a list is one condition. -/
theorem flatMap_conditionsOfEntry_of_ne {v : Value} (h : ∀ queries, v ≠ .list queries) (name : Value) :
    (conditionsOfEntry (name, v)).flatMap operands = operandsOfEntry (name, v) := by
  have hentry : conditionsOfEntry (name, v) = [.plain [(name, v)]] := by
    cases name with
    | text s =>
      cases v with
      | list queries => exact absurd rfl (h queries)
      | _ => rfl
    | _ => rfl
  rw [hentry, List.flatMap_singleton, operands, operandsOfEntries, operandsOfEntries, List.append_nil]

mutual

/-- The operands of a query document are those of its conditions. -/
theorem flatMap_conditions : ∀ d : Value, (conditions d).flatMap operands = operands d
  | .document .plain entries => flatMap_conditionsOfEntries entries
  | .document .ordered _ | .document .readOnly _ | .list _ | .tuple _ | .text _ | .bytes _ | .null | .bool _ | .int _
  | .float _ | .set _ | .frozenSet _ | .timestamp _ | .date _ | .objectId _ | .decimal _ | .pattern _ | .url _
  | .direction _ | .entityId _ | .record _ _ _ | .thing | .recordType _ => rfl
termination_by structural d => d

theorem flatMap_conditionsOfEntries :
    ∀ entries : List (Value × Value), (conditionsOfEntries entries).flatMap operands = operandsOfEntries entries
  | [] => rfl
  | e :: es => by
    rw [conditionsOfEntries, List.flatMap_append, flatMap_conditionsOfEntry e, flatMap_conditionsOfEntries es,
      operandsOfEntries]
termination_by structural es => es

theorem flatMap_conditionsOfEntry :
    ∀ e : Value × Value, (conditionsOfEntry e).flatMap operands = operandsOfEntry e
  | (name, v) => flatMap_conditionsUnder v name
termination_by structural e => e

theorem flatMap_conditionsUnder :
    ∀ (v name : Value), (conditionsOfEntry (name, v)).flatMap operands = operandsOfEntry (name, v)
  | .list queries => fun name => by
    have hqueries := flatMap_conditionsOfAll queries
    cases name with
    | text s =>
      rw [conditionsOfEntry]
      split
      · next hjoins =>
        have hname : joins s = true := by
          rcases hjoins with rfl | ⟨rfl, _⟩ <;> rfl
        rw [hqueries, operandsOfEntry, if_pos hname]
      · rw [List.flatMap_singleton, operands_single]
    | _ => rfl
  | .document _ _ | .tuple _ | .text _ | .bytes _ | .null | .bool _ | .int _ | .float _ | .set _ | .frozenSet _
  | .timestamp _ | .date _ | .objectId _ | .decimal _ | .pattern _ | .url _ | .direction _ | .entityId _
  | .record _ _ _ | .thing | .recordType _ => flatMap_conditionsOfEntry_of_ne nofun
termination_by structural v => v

theorem flatMap_conditionsOfAll :
    ∀ queries : List Value, (conditionsOfAll queries).flatMap operands = operandsOfAll queries
  | [] => rfl
  | q :: qs => by
    rw [conditionsOfAll, List.flatMap_append, flatMap_conditions q, flatMap_conditionsOfAll qs, operandsOfAll]
termination_by structural qs => qs

end

/-- The operands of one operator. -/
theorem operands_one {operator : String} (h : takesValue operator = true) (field : String) (v : Value) :
    operands (.single field (.single operator v)) = [⟨field, operator, v⟩] := by
  rw [operands_single, operandsOfEntry, operandsUnder]
  simp [h]

theorem takesValue_operator (c : Comparison) : takesValue c.operator = true := by
  cases c <;> decide

theorem operands_any (queries : List Value) :
    operands (.single "$or" (.list queries)) = queries.flatMap operands := by
  have hjoins : joins "$or" = true := rfl
  rw [operands_single, operandsOfEntry, if_pos hjoins]
  induction queries with
  | nil => rfl
  | cons q qs ih => rw [operandsOfAll, ih, List.flatMap_cons]

end QueryDocument

open QueryDocument (operands)

namespace TestKind

/-- Whether a test of a field against a value is put as a pattern. -/
def isPattern (field : String) (v : Value) : TestKind → Bool
  | .text _ _ => true
  | .equality _ =>
    match v with
    | .text _ => field != nativeField
    | _ => false
  | _ => false

/-- The operators of a test against a value, and what they take of it. -/
def operands (kind : TestKind) (v : Value) : List (String × Value) :=
  match kind, v with
  | .equality true, v => [("$eq", v)]
  | .equality false, v => [("$ne", v)]
  | .comparison c, v => [(c.operator, v)]
  | .range true, .tuple [low, high] => [("$gte", low), ("$lte", high)]
  | .range false, .tuple [low, high] => [("$lt", low), ("$gt", high)]
  | .membership true, .list items => [("$in", .list items)]
  | .membership false, .list items => [("$nin", .list items)]
  | _, _ => []

end TestKind

/-- What the operators of a predicate take if native identifiers are left as they are given: the value that it tests
against, as it is stored. -/
def Predicate.operands (m : Mapping) (p : Predicate) : List Operand :=
  match p.test.operand.prepared with
  | .error _ => []
  | .ok v =>
    if p.test.kind.isPattern (m.storageName p.field) v then []
    else (p.test.kind.operands v).map fun x => ⟨m.storageName p.field, x.1, x.2⟩

/-- Whether an operator takes a value for another one: the same, but for the literals of native identifiers in the
native field. -/
structure Operand.IsSentFor (given sent : Operand) : Prop where
  field : sent.field = given.field
  operator : sent.operator = given.operator
  coerced : sent.field = nativeField → given.value.IsCoerced sent.value ∧ sent.value.holdsLiteral = false
  kept : sent.field ≠ nativeField → sent.value = given.value

theorem Operand.isSentFor_nativeFor (field operator : String) (v : Value) :
    IsSentFor ⟨field, operator, v⟩ ⟨field, operator, v.nativeFor field⟩ where
  field := rfl
  operator := rfl
  coerced := by
    rintro rfl
    rw [Value.nativeFor_native]
    exact ⟨v.isCoerced_native, v.holdsLiteral_native⟩
  kept := fun h => Value.nativeFor_of_ne h v

namespace Test

theorem operand_converted (t : Test) : t.operand.converted = t.converted.operand := by
  cases t with
  | membership holds items =>
    rw [operand, Value.converted, Value.convertedItems_eq_map, converted, operand]
  | _ => rfl

/-- What the query of a test takes is what the test is against. -/
theorem forall₂_operands_query (field : String) (t : Test) :
    List.Forall₂ Operand.IsSentFor
      (if t.kind.isPattern field t.operand then []
        else (t.kind.operands t.operand).map fun x => ⟨field, x.1, x.2⟩)
      (operands (t.query field).document) := by
  have one (operator : String) (hvalue : QueryDocument.takesValue operator = true) (v : Value) :
      List.Forall₂ Operand.IsSentFor [⟨field, operator, v⟩]
        (operands (.single field (.single operator (v.nativeFor field)))) := by
    rw [QueryDocument.operands_one hvalue]
    exact .cons (Operand.isSentFor_nativeFor field operator v) .nil
  have equality (holds : Bool) (v : Value) : List.Forall₂ Operand.IsSentFor
      (((TestKind.equality holds).operands v).map fun x => ⟨field, x.1, x.2⟩)
      (operands (Query.field field (.equality holds (v.nativeFor field))).document) := by
    cases holds with
    | true => exact one "$eq" (by decide) v
    | false => exact one "$ne" (by decide) v
  cases t with
  | equality holds v =>
    cases v with
    | text s =>
      by_cases hfield : field = nativeField
      · subst hfield
        exact equality holds (.text s)
      · have hne : (field != nativeField) = true := by simpa using hfield
        simp only [kind, operand, TestKind.isPattern, query, hne, if_neg hfield, if_true]
        cases holds <;> exact .nil
    | _ => exact equality holds _
  | text part holds s => cases holds <;> exact .nil
  | comparison c v => exact one c.operator (QueryDocument.takesValue_operator c) v
  | range holds low high =>
    cases holds with
    | true =>
      exact .cons (Operand.isSentFor_nativeFor field _ low) (.cons (Operand.isSentFor_nativeFor field _ high) .nil)
    | false =>
      rw [query, Query.document, QueryDocument.operands_any]
      exact List.rel_append (one "$lt" (by decide) low) (List.rel_append (one "$gt" (by decide) high) .nil)
  | membership holds items =>
    cases holds with
    | true =>
      have hitems := one "$in" (by decide) (.list items)
      rwa [Value.nativeFor_list] at hitems
    | false =>
      have hitems := one "$nin" (by decide) (.list items)
      rwa [Value.nativeFor_list] at hitems
  | emptiness holds => cases holds <;> exact .nil

end Test

theorem Predicate.forall₂_operands (m : Mapping) {p : Predicate} (h : p.test.refusesPreparation = false) :
    List.Forall₂ Operand.IsSentFor (p.operands m) (QueryDocument.operands (p.queryIn m).document) := by
  have hprepared : p.test.operand.prepared = .ok p.test.converted.operand := by
    rw [Value.prepared, ← Test.refusesPreparation, h, Test.operand_converted]
    rfl
  have hsent := Test.forall₂_operands_query (m.storageName p.field) p.test.converted
  rw [Test.kind_converted] at hsent
  rw [Predicate.operands, hprepared]
  exact hsent

namespace Filter

theorem isStated_of_mem_asked {m : Mapping} {f : Filter} (h : ∀ p ∈ f.predicates, p.IsStated m) {p : Predicate}
    (hp : p ∈ f.asked) : p.IsStated m := by
  simp only [asked, List.mem_append, List.mem_map] at hp
  rcases hp with (hp | ⟨q, hq, rfl⟩) | hp
  · exact h p (by simp [predicates, hp])
  · exact (h q (by simp [predicates, hq])).opposite
  · exact h p (by simp [predicates, hp])

/-- The operators of the query for a filter take what its predicates test against, as it is stored, each for the
storage name of the field. In the native field each literal of a native identifier is replaced by the identifier, at
every depth of lists and tuples; elsewhere nothing is. There is no query only if a field has no storage name or a value
cannot be copied. -/
theorem operands_coerced (m : Mapping) (f : Filter) :
    (∃ d sent, (queryOf (.filter f) m).outcome = .ok d ∧ (operands d).Perm sent ∧
      List.Forall₂ Operand.IsSentFor (f.asked.flatMap fun p => p.operands m) sent) ∨
    ∃ e, (queryOf (.filter f) m).outcome = .error e ∧ ∃ p ∈ f.predicates, p.FailsWith m e := by
  cases houtcome : (queryOf (.filter f) m).outcome with
  | error e => exact .inr ⟨e, rfl, failsWith_of_outcome houtcome⟩
  | ok d =>
    have hstated : ∀ p ∈ f.predicates, p.IsStated m := isStated_of_outcome houtcome
    obtain rfl := eq_document_of_outcome houtcome
    refine .inl ⟨_, f.asked.flatMap fun p => operands (p.queryIn m).document, rfl, ?_, ?_⟩
    · have hconditions := (conditions_queryIn m f).flatMap_right operands
      rwa [QueryDocument.flatMap_conditions, List.flatMap_map] at hconditions
    · rw [List.flatMap_def, List.flatMap_def]
      refine List.rel_flatten (List.forall₂_map_left_iff.mpr (List.forall₂_map_right_iff.mpr ?_))
      refine List.forall₂_same.mpr fun p hp => ?_
      exact Predicate.forall₂_operands m (isStated_of_mem_asked hstated hp).isPrepared

/-- Customers that are looked for by literals of native identifiers, under both names of the native field and within a
tuple, and under the name of a field in which they are names. -/
def literalCustomers : Filter where
  must := [⟨"id", .membership true [.text "0123456789abcdef01234567", .tuple [.text "Ken", .bytes (.replicate 12 7)]],
      rfl⟩, ⟨"name", .comparison .less (.text "0123456789abcdef01234567"), rfl⟩]
  mustNot := [⟨"_id", .range true (.text "0123456789abcdef01234567") (.int 5), rfl⟩]
  should := [⟨"id", .equality true (.text "0123456789abcdef01234567"), rfl⟩,
    ⟨"name", .equality true (.text "Ken"), Value.isOk_spelled_text "Ken"⟩]

theorem operands_coerced_literalCustomers :
    ∃ d sent, (queryOf (.filter literalCustomers) customers).outcome = .ok d ∧ (operands d).Perm sent ∧
      List.Forall₂ Operand.IsSentFor
        [⟨"_id", "$in", .list [.text "0123456789abcdef01234567", .tuple [.text "Ken", .bytes (.replicate 12 7)]]⟩,
          ⟨"customer_name", "$lt", .text "0123456789abcdef01234567"⟩,
          ⟨"_id", "$lt", .text "0123456789abcdef01234567"⟩, ⟨"_id", "$gt", .int 5⟩,
          ⟨"_id", "$eq", .text "0123456789abcdef01234567"⟩] sent := by
  have hstated : ∀ p ∈ literalCustomers.predicates, customers.maps p.field = true ∧ p.isCopyable = true := by
    decide +kernel
  rcases operands_coerced customers literalCustomers with hd | ⟨e, he, _⟩
  · exact hd
  · have hok := outcome_of_isStated fun p hp => Predicate.isStated_iff.mpr (hstated p hp)
    exact (Outcome.ok_ne_error hok he).elim

end Filter

end EntityStore

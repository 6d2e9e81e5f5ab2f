import EntityStore.Proofs.Query.Meaning

namespace EntityStore

namespace Condition

/-- Whether a condition is stated by operators. -/
def hasOperators : Condition → Bool
  | .literally _ => false
  | _ => true

end Condition

namespace Query

mutual

/-- Whether a query joins something wherever it joins, and states its conditions by operators. -/
def isFilled : Query → Bool
  | .everything => true
  | .field _ c => c.hasOperators
  | .all queries => !queries.isEmpty && areFilled queries
  | .any queries => !queries.isEmpty && areFilled queries
termination_by structural q => q

def areFilled : List Query → Bool
  | [] => true
  | q :: qs => isFilled q && areFilled qs
termination_by structural qs => qs

end

theorem areFilled_eq_all (qs : List Query) : areFilled qs = qs.all fun q => q.isFilled := by
  induction qs with
  | nil => rfl
  | cons q qs ih => rw [areFilled, ih, List.all_cons]

end Query

namespace QueryDocument

/-- The operators that join the queries of an array. -/
def joins (operator : String) : Bool := operator = "$and" || operator = "$or"

/-- The operators after which there stands a value, whatever it looks like. -/
def takesValue (operator : String) : Bool :=
  ["$eq", "$ne", "$gt", "$gte", "$lt", "$lte", "$in", "$nin"].contains operator

mutual

/-- Whether no connective of a query document joins an empty array, wherever an operator can stand. -/
def isFilled : Value → Bool
  | .document _ entries => entriesAreFilled entries
  | _ => true
termination_by structural v => v

def entriesAreFilled : List (Value × Value) → Bool
  | [] => true
  | e :: es => entryIsFilled e && entriesAreFilled es
termination_by structural es => es

def entryIsFilled : Value × Value → Bool
  | (.text name, .list queries) =>
    if joins name then !queries.isEmpty && areFilled queries else takesValue name || areFilled queries
  | (.text name, operators) => takesValue name || isFilled operators
  | _ => true
termination_by structural e => e

def areFilled : List Value → Bool
  | [] => true
  | q :: qs => isFilled q && areFilled qs
termination_by structural qs => qs

end

theorem isFilled_plain (entries : List (Value × Value)) :
    isFilled (.plain entries) = entries.all entryIsFilled := by
  rw [isFilled]
  induction entries with
  | nil => rfl
  | cons e es ih => rw [entriesAreFilled, ih, List.all_cons]

theorem entryIsFilled_value {operator : String} (hvalue : takesValue operator = true)
    (hjoins : joins operator = false) (v : Value) : entryIsFilled (.text operator, v) = true := by
  cases v <;> simp [entryIsFilled, hvalue, hjoins]

theorem isFilled_joined {operator : String} (hjoins : joins operator = true) (queries : List Value) :
    isFilled (.single operator (.list queries)) = (!queries.isEmpty && areFilled queries) := by
  simp [isFilled_plain, entryIsFilled, hjoins]

theorem isFilled_condition {c : Condition} (h : c.hasOperators = true) : isFilled c.document = true := by
  have value (operator : String) (hvalue : takesValue operator = true) (hjoins : joins operator = false)
      (v : Value) : isFilled (.single operator v) = true := by
    rw [isFilled_plain, List.all_cons, entryIsFilled_value hvalue hjoins]
    rfl
  cases c with
  | literally v => exact absurd h Bool.false_ne_true
  | equality holds v => cases holds <;> exact value _ (by decide) (by decide) v
  | comparison c v => cases c <;> exact value _ (by decide) (by decide) v
  | between low high =>
    rw [Condition.document, isFilled_plain, List.all_cons, List.all_cons, List.all_nil,
      entryIsFilled_value (by decide) (by decide), entryIsFilled_value (by decide) (by decide)]
    rfl
  | membership holds items => cases holds <;> exact value _ (by decide) (by decide) _
  | pattern holds source => cases holds <;> rfl
  | emptyArray => rfl
  | filledArray => rfl

/-- The condition of a field joins nothing, whatever the name of the field. -/
theorem isFilled_field (name : String) {c : Condition} (h : c.hasOperators = true) :
    isFilled (.single name c.document) = true := by
  have hlisted : c.isListed = false := by
    cases c with
    | literally v => exact absurd h Bool.false_ne_true
    | _ => rfl
  have hcondition := isFilled_condition h
  have hentry : entryIsFilled (.text name, c.document) = (takesValue name || isFilled c.document) := by
    cases hc : c.document with
    | list items => exact absurd hc (Condition.document_ne_list hlisted items)
    | _ => simp [entryIsFilled]
  rw [isFilled_plain, List.all_cons, hentry, hcondition, Bool.or_true]
  rfl

theorem isEmpty_documents (qs : List Query) : (Query.documents qs).isEmpty = qs.isEmpty := by
  cases qs <;> rfl

mutual

/-- A query that joins something has a document that does. -/
theorem isFilled_document : ∀ q : Query, q.isFilled = true → isFilled q.document = true
  | .everything, _ => rfl
  | .field name c, h => isFilled_field name h
  | .all queries, h => by
    obtain ⟨hne, hqueries⟩ : queries.isEmpty = false ∧ Query.areFilled queries = true := by
      simpa [Query.isFilled] using h
    rw [Query.document, isFilled_joined rfl, isEmpty_documents, hne, areFilled_documents queries hqueries]
    rfl
  | .any queries, h => by
    obtain ⟨hne, hqueries⟩ : queries.isEmpty = false ∧ Query.areFilled queries = true := by
      simpa [Query.isFilled] using h
    rw [Query.document, isFilled_joined rfl, isEmpty_documents, hne, areFilled_documents queries hqueries]
    rfl

theorem areFilled_documents : ∀ qs : List Query, Query.areFilled qs = true →
    areFilled (Query.documents qs) = true
  | [], _ => rfl
  | q :: qs, h => by
    obtain ⟨hq, hqs⟩ : q.isFilled = true ∧ Query.areFilled qs = true := by
      simpa [Query.areFilled] using h
    rw [Query.documents, areFilled, isFilled_document q hq, areFilled_documents qs hqs]
    rfl

end

/-- Whether a document is one connective over an array, and nothing else. -/
def IsJoined (d : Value) : Prop := ∃ operator queries, joins operator = true ∧ d = .single operator (.list queries)

theorem IsJoined.ne_everything {d : Value} (h : IsJoined d) : d ≠ .plain [] := by
  obtain ⟨operator, queries, _, rfl⟩ := h
  simp

end QueryDocument

open QueryDocument (IsJoined)

theorem Test.isFilled_query (field : String) (t : Test) : (t.query field).isFilled = true := by
  cases t with
  | equality holds v =>
    cases v with
    | text s =>
      rw [query]
      split <;> rfl
    | _ => rfl
  | range holds low high => cases holds <;> rfl
  | emptiness holds => cases holds <;> rfl
  | _ => rfl

namespace ClauseGroup

variable (group : ClauseGroup) {qs : List Query}

theorem isJoined_join (qs : List Query) : IsJoined (group.join qs).document := by
  cases group <;> exact ⟨_, _, rfl, rfl⟩

theorem isFilled_join (hne : qs ≠ []) (h : ∀ q ∈ qs, q.isFilled = true) : (group.join qs).isFilled = true := by
  have hall : (!qs.isEmpty && Query.areFilled qs) = true := by
    rw [Query.areFilled_eq_all, List.isEmpty_eq_false_iff.mpr hne]
    exact List.all_eq_true.mpr h
  cases group <;> exact hall

/-- Setting patterns apart joins them only if there are any. -/
theorem isFilled_combine (hne : qs ≠ []) (h : ∀ q ∈ qs, q.isFilled = true) :
    (group.combine qs).isFilled = true := by
  apply isFilled_join
  · obtain ⟨q, hq⟩ := List.exists_mem_of_ne_nil qs hne
    cases hpattern : q.isPattern with
    | true =>
      have hpatterns : (qs.filter fun q => q.isPattern) ≠ [] :=
        List.ne_nil_of_mem (List.mem_filter.mpr ⟨hq, hpattern⟩)
      simp [List.isEmpty_eq_false_iff.mpr hpatterns]
    | false =>
      have hothers : q ∈ qs.filter fun q => !q.isPattern := List.mem_filter.mpr ⟨hq, by simp [hpattern]⟩
      exact List.append_ne_nil_of_left_ne_nil (List.ne_nil_of_mem hothers) _
  · intro q hq
    rcases List.mem_append.mp hq with hq | hq
    · exact h q (List.mem_filter.mp hq).1
    · split at hq
      · simp at hq
      · next hpatterns =>
        rw [List.mem_singleton.mp hq]
        refine isFilled_join group (by simpa using hpatterns) ?_
        exact fun r hr => h r (List.mem_filter.mp hr).1

end ClauseGroup

namespace Clause

variable {m : Mapping} {group : ClauseGroup} {c : Clause} {q : Query}

theorem isJoined_queryIn (h : c.queryIn m group = some q) : IsJoined q.document := by
  rw [eq_combine h]
  exact ClauseGroup.isJoined_join group _

theorem isFilled_queryIn (h : c.queryIn m group = some q) : q.isFilled = true := by
  have hne : c ≠ [] := by
    rintro rfl
    exact absurd h (by simp [queryIn])
  have harranged : c.arranged ≠ [] := fun hnil => hne (List.perm_nil.mp (hnil ▸ arranged_perm c).symm)
  rw [eq_combine h]
  refine ClauseGroup.isFilled_combine group (by simpa using harranged) ?_
  intro r hr
  obtain ⟨p, _, rfl⟩ := List.mem_map.mp hr
  exact Test.isFilled_query _ _

end Clause

namespace Query

variable {must mustNot should : Option Query}

theorem isFilled_ofGroups
    (h : ∀ q, must = some q ∨ mustNot = some q ∨ should = some q → q.isFilled = true) :
    (ofGroups must mustNot should).isFilled = true := by
  cases must <;> cases mustNot <;> cases should <;> simp_all [ofGroups, conjoined, isFilled, areFilled]

/-- Of the eight ways in which groups can have queries, only the one without any asks for everything. -/
theorem isJoined_ofGroups (hsome : must.isSome || mustNot.isSome || should.isSome)
    (h : ∀ q, must = some q ∨ mustNot = some q ∨ should = some q → IsJoined q.document) :
    IsJoined (ofGroups must mustNot should).document := by
  have hall (queries : List Query) : IsJoined (Query.all queries).document := ⟨_, _, rfl, rfl⟩
  have hany (queries : List Query) : IsJoined (Query.any queries).document := ⟨_, _, rfl, rfl⟩
  cases must with
  | none =>
    cases mustNot with
    | none =>
      cases should with
      | none => exact absurd hsome (by simp)
      | some s => exact h s (.inr (.inr rfl))
    | some n =>
      cases should with
      | none => exact h n (.inr (.inl rfl))
      | some s => exact hany _
  | some p =>
    cases mustNot with
    | none =>
      cases should with
      | none => exact h p (.inl rfl)
      | some s => exact hany _
    | some n =>
      cases should with
      | none => exact hall _
      | some s => exact hany _

end Query

namespace Filter

variable {m : Mapping} {f : Filter}

theorem isFilled_queryIn (m : Mapping) (f : Filter) : QueryDocument.isFilled (f.queryIn m).document = true := by
  apply QueryDocument.isFilled_document
  apply Query.isFilled_ofGroups
  rintro q (h | h | h) <;> exact Clause.isFilled_queryIn h

theorem isJoined_queryIn (m : Mapping) (h : f.isEmpty = false) : IsJoined (f.queryIn m).document := by
  apply Query.isJoined_ofGroups
  · rw [Clause.isSome_queryIn, Clause.isSome_queryIn, Clause.isSome_queryIn, ← Bool.not_and, ← Bool.not_and]
    exact congrArg not h
  · rintro q (h | h | h) <;> exact Clause.isJoined_queryIn h

/-- A filter has a query for everything only if it is empty. -/
theorem document_eq_everything_iff (m : Mapping) (f : Filter) :
    (f.queryIn m).document = .plain [] ↔ f.isEmpty = true := by
  constructor
  · intro h
    by_contra hne
    exact (isJoined_queryIn m (Bool.not_eq_true _ ▸ hne)).ne_everything h
  · intro h
    obtain ⟨hmust, hmustNot, hshould⟩ := (isEmpty_iff f).mp h
    rw [queryIn, hmust, hmustNot, hshould]
    rfl

theorem eq_document_of_outcome {d : Value} (h : (queryOf (.filter f) m).outcome = .ok d) :
    d = (f.queryIn m).document := by
  have hstated := isStated_of_outcome h
  have hcopy : f.isCopyable = true := by
    have hview : ∀ p ∈ f.must ++ f.mustNot ++ f.should, p.test.operand.holdsView = false :=
      fun p hp => (hstated p hp).isCopyable
    simp only [List.forall_mem_append] at hview
    simpa [isCopyable, Clause.isCopyable, and_assoc] using hview
  rw [outcome_eq m f (fun p hp => (hstated p hp).maps) hcopy] at h
  split at h
  · exact absurd h (by simp)
  · exact (Except.ok.inj h).symm

section

variable (hmaps : ∀ p ∈ f.predicates, m.maps p.field = true) (hcopy : f.isCopyable = true)

include hmaps hcopy

theorem outcome_eq_everything_iff :
    (queryOf (.filter f) m).outcome = .ok (.plain []) ↔ f.isEmpty = true := by
  constructor
  · intro h
    exact (document_eq_everything_iff m f).mp (eq_document_of_outcome h).symm
  · intro hempty
    have hprepared : f.refusesPreparation = false := by
      obtain ⟨hmust, hmustNot, hshould⟩ := (isEmpty_iff f).mp hempty
      rw [refusesPreparation, hmust, hmustNot, hshould]
      rfl
    rw [outcome_eq m f hmaps hcopy, hprepared, (document_eq_everything_iff m f).mpr hempty]
    rfl

/-- A filter that is not empty has a query that joins something wherever it joins, unless a value cannot be
prepared. -/
theorem outcome_isJoined (hne : f.isEmpty = false) :
    f.refusesPreparation = true ∧ (queryOf (.filter f) m).outcome = .error Value.viewRefusal ∨
      f.refusesPreparation = false ∧ ∃ d, (queryOf (.filter f) m).outcome = .ok d ∧ IsJoined d ∧
        QueryDocument.isFilled d = true := by
  rw [outcome_eq m f hmaps hcopy]
  cases f.refusesPreparation with
  | true => exact .inl ⟨rfl, rfl⟩
  | false => exact .inr ⟨rfl, (f.queryIn m).document, rfl, isJoined_queryIn m hne, isFilled_queryIn m f⟩

end

end Filter

end EntityStore

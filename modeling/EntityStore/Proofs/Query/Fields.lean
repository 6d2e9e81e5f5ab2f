import EntityStore.Proofs.Query.Joining

namespace EntityStore

namespace Query

mutual

/-- The conditions that a query puts on fields, wherever they stand in it. -/
def fieldConditions : Query → List (String × Condition)
  | .everything => []
  | .field name c => [(name, c)]
  | .all queries => fieldConditionsOf queries
  | .any queries => fieldConditionsOf queries
termination_by structural q => q

def fieldConditionsOf : List Query → List (String × Condition)
  | [] => []
  | q :: qs => fieldConditions q ++ fieldConditionsOf qs
termination_by structural qs => qs

end

/-- The names of the fields that a query asks about. -/
def fields (q : Query) : List String := q.fieldConditions.map (·.1)

variable {x : String × Condition}

theorem mem_fields {q : Query} {name : String} : name ∈ q.fields ↔ ∃ x ∈ q.fieldConditions, x.1 = name :=
  List.mem_map

theorem mem_fieldConditionsOf {qs : List Query} : x ∈ fieldConditionsOf qs ↔ ∃ q ∈ qs, x ∈ q.fieldConditions := by
  induction qs with
  | nil => simp [fieldConditionsOf]
  | cons q qs ih => simp [fieldConditionsOf, ih]

theorem mem_fieldConditions_any {qs : List Query} :
    x ∈ (any qs).fieldConditions ↔ ∃ q ∈ qs, x ∈ q.fieldConditions := mem_fieldConditionsOf

theorem mem_fieldConditions_conjoined {must mustNot : Option Query} : x ∈ (conjoined must mustNot).fieldConditions ↔
    (∃ q, must = some q ∧ x ∈ q.fieldConditions) ∨ ∃ q, mustNot = some q ∧ x ∈ q.fieldConditions := by
  cases must <;> cases mustNot <;> simp [conjoined, fieldConditions, fieldConditionsOf]

theorem mem_fieldConditions_ofGroups {must mustNot should : Option Query} :
    x ∈ (ofGroups must mustNot should).fieldConditions ↔
      (∃ q, must = some q ∧ x ∈ q.fieldConditions) ∨ (∃ q, mustNot = some q ∧ x ∈ q.fieldConditions) ∨
        ∃ q, should = some q ∧ x ∈ q.fieldConditions := by
  have hboth : x ∈ (conjoined must mustNot).fieldConditions ↔ _ := mem_fieldConditions_conjoined
  cases should with
  | none => simpa [ofGroups, or_assoc] using hboth
  | some s =>
    rw [ofGroups]
    split
    · next hnone =>
      obtain ⟨rfl, rfl⟩ : must = none ∧ mustNot = none := by simpa using hnone
      simp
    · rw [mem_fieldConditions_any]
      simp [hboth, or_assoc]

end Query

open Query

/-- The query for a test asks about the field that is tested, and no other. -/
theorem Test.mem_fields_query {t : Test} {field name : String} : name ∈ (t.query field).fields ↔ name = field := by
  cases t with
  | equality holds v =>
    cases v with
    | text s =>
      rw [query]
      split <;> simp [fields, fieldConditions, eq_comm]
    | _ => simp [query, fields, fieldConditions]
  | range holds low high => cases holds <;> simp [query, fields, fieldConditions, fieldConditionsOf]
  | emptiness holds => cases holds <;> simp [query, fields, fieldConditions]
  | _ => simp [query, fields, fieldConditions]

variable {m : Mapping} {x : String × Condition}

theorem ClauseGroup.mem_fieldConditions_join {group : ClauseGroup} {qs : List Query} :
    x ∈ (group.join qs).fieldConditions ↔ ∃ q ∈ qs, x ∈ q.fieldConditions := by
  cases group <;> exact mem_fieldConditionsOf

/-- Setting patterns apart neither loses nor adds a condition. -/
theorem ClauseGroup.mem_fieldConditions_combine {group : ClauseGroup} {qs : List Query} :
    x ∈ (group.combine qs).fieldConditions ↔ ∃ q ∈ qs, x ∈ q.fieldConditions := by
  have hpatterns : (∃ q ∈ if (qs.filter (·.isPattern)).isEmpty then [] else [group.join (qs.filter (·.isPattern))],
      x ∈ q.fieldConditions) ↔ ∃ q ∈ qs.filter (·.isPattern), x ∈ q.fieldConditions := by
    split
    · next hnone => simp [List.isEmpty_iff.mp hnone]
    · simp only [List.mem_singleton, exists_eq_left, mem_fieldConditions_join]
  rw [combine, mem_fieldConditions_join]
  simp only [List.mem_append, or_and_right, exists_or, hpatterns, List.mem_filter]
  constructor
  · rintro (⟨q, ⟨hq, _⟩, hx⟩ | ⟨q, ⟨hq, _⟩, hx⟩)
    · exact ⟨q, hq, hx⟩
    · exact ⟨q, hq, hx⟩
  · rintro ⟨q, hq, hx⟩
    cases hpattern : q.isPattern with
    | true => exact .inr ⟨q, ⟨hq, hpattern⟩, hx⟩
    | false => exact .inl ⟨q, ⟨hq, by simp [hpattern]⟩, hx⟩

theorem Clause.mem_fieldConditions_queryIn {group : ClauseGroup} {c : Clause} :
    (∃ q, c.queryIn m group = some q ∧ x ∈ q.fieldConditions) ↔
      ∃ p ∈ c, x ∈ ((group.asked p).queryIn m).fieldConditions := by
  cases hq : c.queryIn m group with
  | none => simp [eq_nil_of_queryIn hq]
  | some q =>
    rw [eq_combine hq]
    simp [ClauseGroup.mem_fieldConditions_combine, (arranged_perm c).mem_iff]

namespace Filter

variable {f : Filter}

theorem mem_fieldConditions_queryIn :
    x ∈ (f.queryIn m).fieldConditions ↔ ∃ p ∈ f.asked, x ∈ (p.queryIn m).fieldConditions := by
  rw [queryIn, mem_fieldConditions_ofGroups]
  simp only [Clause.mem_fieldConditions_queryIn]
  simp [asked, ClauseGroup.asked, or_and_right, exists_or]

/-- The query for a filter asks about the fields that its predicates name, each under its storage name. -/
theorem mem_fields_queryIn {name : String} :
    name ∈ (f.queryIn m).fields ↔ ∃ p ∈ f.predicates, m.storageName p.field = name := by
  have hfields (p : Predicate) : name ∈ (p.queryIn m).fields ↔ m.storageName p.field = name :=
    Test.mem_fields_query.trans eq_comm
  have hasked : name ∈ (f.queryIn m).fields ↔ ∃ p ∈ f.asked, name ∈ (p.queryIn m).fields := by
    simp only [mem_fields, mem_fieldConditions_queryIn]
    constructor
    · rintro ⟨x, ⟨p, hp, hx⟩, hname⟩
      exact ⟨p, hp, x, hx, hname⟩
    · rintro ⟨p, hp, x, hx, hname⟩
      exact ⟨x, ⟨p, hp, hx⟩, hname⟩
  rw [hasked]
  simp only [hfields]
  simp [asked, predicates, Predicate.opposite, or_and_right, exists_or]

end Filter

end EntityStore

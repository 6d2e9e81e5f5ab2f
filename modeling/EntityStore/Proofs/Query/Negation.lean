import EntityStore.Proofs.Query.Meaning
import EntityStore.Proofs.Query.Operators
import Mathlib

namespace EntityStore

section Order

variable {ι : Type} {T : ι → Type} [∀ i, LinearOrder (T i)]

/-- Whether a comparison holds of a value and a bound in one order. -/
def Comparison.compares {α : Type} [LinearOrder α] (x bound : α) : Comparison → Bool
  | .greater => decide (bound < x)
  | .greaterOrEqual => decide (bound ≤ x)
  | .less => decide (x < bound)
  | .lessOrEqual => decide (x ≤ bound)

theorem Comparison.compares_opposite {α : Type} [LinearOrder α] (c : Comparison) (x bound : α) :
    c.opposite.compares x bound = !c.compares x bound := by
  cases c <;> simp [opposite, compares, ← decide_not]

/-- The usual meaning of operators on one document. A scalar is read as an element of each totally ordered
type it belongs to, and compared in the order of that type. -/
structure UsualMeaning (scalar : (i : ι) → Value → Option (T i)) (doc : Document)
    (fulfils : String → Value → Bool) : Prop where
  notEqual : ∀ field v, fulfils field (.single "$ne" v) = !fulfils field (.single "$eq" v)
  notAmong : ∀ field vs, fulfils field (.single "$nin" (.list vs)) =
    !fulfils field (.single "$in" (.list vs))
  notMatching : ∀ field source, fulfils field (.single "$not" (.pattern ⟨source, .caseless⟩)) =
    !fulfils field (.plain [(.text "$regex", .text source), (.text "$options", .text "i")])
  notFulfilling : ∀ field operators, areOperators operators = true →
    fulfils field (.single "$not" (.plain operators)) = !fulfils field (.plain operators)
  both : ∀ field a v b w, isOperator a = true → isOperator b = true → a ≠ "$regex" →
    fulfils field (.plain [(.text a, v), (.text b, w)]) =
      (fulfils field (.single a v) && fulfils field (.single b w))
  compares : ∀ field v i x bound b, doc.stored? field = some v → scalar i v = some x →
    scalar i bound = some b → ∀ c : Comparison,
      fulfils field (.single c.operator bound) = c.compares x b
  present : ∀ field v, doc.stored? field = some v → fulfils field (.single "$exists" (.bool true)) = true
  arrayType : ∀ field vs, doc.stored? field = some (.list vs) →
    fulfils field (.single "$type" (.text "array")) = true
  arraySize : ∀ field vs, doc.stored? field = some (.list vs) → ∀ n : Nat,
    fulfils field (.single "$size" (.int n)) = decide (vs.length = n)

/-- The integer that a value is, as the only ordered type. -/
def Value.integer? (_ : Unit) : Value → Option Int
  | .int n => some n
  | _ => none

theorem Value.eq_int_of_integer? {i : Unit} {v : Value} {n : Int} (h : v.integer? i = some n) :
    v = .int n := by
  cases v with
  | int k =>
    have hk : k = n := Option.some.inj h
    rw [hk]
  | _ => exact absurd h (by simp [integer?])

/-- Operators that are read from their documents mean what they usually do, for numbers that are
compared as integers. -/
theorem Document.usualMeaning (doc : Document) : UsualMeaning Value.integer? doc doc.fulfils where
  notEqual := by
    intro field v
    simp [fulfils_operator, isOperator, fulfilsOperator]
  notAmong := by
    intro field vs
    simp [fulfils_operator, isOperator, fulfilsOperator]
  notMatching := doc.fulfils_notMatching
  notFulfilling := fun field operators _ => doc.fulfils_not field operators
  both := fun field a v b w ha hb _ => doc.fulfils_both field v w ha hb
  compares := by
    intro field v i x bound b hv hx hb c
    obtain rfl := Value.eq_int_of_integer? hx
    obtain rfl := Value.eq_int_of_integer? hb
    have hop : isOperator c.operator = true := by cases c <;> decide
    have hne : c.operator ≠ "$not" := by cases c <;> decide
    rw [doc.fulfils_operator field _ hop hne, hv]
    cases c <;> simp [Comparison.operator, fulfilsOperator, Value.comparesTo_int, Comparison.compares]
  present := by
    intro field v hv
    simp [fulfils_operator, isOperator, fulfilsOperator, hv]
  arrayType := by
    intro field vs hvs
    simp [fulfils_operator, isOperator, fulfilsOperator, hvs]
  arraySize := by
    intro field vs hvs n
    have hlength : ((vs.length : Int) == n) = decide (vs.length = n) := by
      rw [beq_eq_decide, decide_eq_decide]
      omega
    simp [fulfils_operator, isOperator, fulfilsOperator, hvs, hlength]

/-- Whether a field holds what a test is for: a scalar of the same ordered type as the bounds where
values are compared, an array where it can be empty, and anything elsewhere. -/
def Test.Fits (scalar : (i : ι) → Value → Option (T i)) (doc : Document) (field : String) : Test → Prop
  | .comparison _ bound => ∃ v i x b, doc.stored? field = some v ∧ scalar i v = some x ∧
      scalar i (bound.nativeFor field) = some b
  | .range _ low high => ∃ v i x a b, doc.stored? field = some v ∧ scalar i v = some x ∧
      scalar i (low.nativeFor field) = some a ∧ scalar i (high.nativeFor field) = some b
  | .emptiness _ => ∃ vs, doc.stored? field = some (.list vs)
  | _ => True

variable {scalar : (i : ι) → Value → Option (T i)} {doc : Document}
  {fulfils : String → Value → Bool}

/-- The truth of a query where conditions are interpreted by their documents. -/
abbrev Query.holdsBy (fulfils : String → Value → Bool) (q : Query) : Bool :=
  q.holds fun name c => fulfils name c.document

namespace UsualMeaning

variable (h : UsualMeaning scalar doc fulfils) (field : String)
include h

theorem holds_pattern (holds : Bool) (source : String) :
    (Query.field field (.pattern (!holds) source)).holdsBy fulfils =
      !(Query.field field (.pattern holds source)).holdsBy fulfils := by
  cases holds <;> simp [Query.holdsBy, Query.holds, Condition.document, h.notMatching]

theorem holds_equality (holds : Bool) (v : Value) :
    (Query.field field (.equality (!holds) v)).holdsBy fulfils =
      !(Query.field field (.equality holds v)).holdsBy fulfils := by
  cases holds <;> simp [Query.holdsBy, Query.holds, Condition.document, h.notEqual]

section

variable {field} {v : Value} {i : ι} {x a b : T i} {low high : Value} (hv : doc.stored? field = some v)
  (hx : scalar i v = some x) (ha : scalar i low = some a) (hb : scalar i high = some b)
include hv hx ha hb

theorem holds_between : (Query.field field (.between low high)).holdsBy fulfils =
    (Comparison.greaterOrEqual.compares x a && Comparison.lessOrEqual.compares x b) := by
  have hboth := h.both field "$gte" low "$lte" high (by decide) (by decide) (by decide)
  have atLow := h.compares field v i x low a hv hx ha .greaterOrEqual
  have atHigh := h.compares field v i x high b hv hx hb .lessOrEqual
  exact hboth.trans (congrArg₂ and atLow atHigh)

theorem holds_outside :
    (Query.any [.field field (.comparison .less low), .field field (.comparison .greater high)]).holdsBy
      fulfils = (Comparison.less.compares x a || Comparison.greater.compares x b) := by
  have atLow := h.compares field v i x low a hv hx ha .less
  have atHigh := h.compares field v i x high b hv hx hb .greater
  have hany := congrArg₂ or atLow atHigh
  simpa [Query.holdsBy, Query.holds, Query.anyHolds, Condition.document] using hany

end

variable {field} {vs : List Value} (hvs : doc.stored? field = some (.list vs))
include hvs

theorem holds_emptyArray :
    (Query.field field .emptyArray).holdsBy fulfils = decide (vs.length = 0) := by
  have hboth := h.both field "$exists" (.bool true) "$size" (.int 0) (by decide) (by decide) (by decide)
  rw [h.present field _ hvs, Bool.true_and] at hboth
  exact hboth.trans (h.arraySize field vs hvs 0)

theorem holds_filledArray :
    (Query.field field .filledArray).holdsBy fulfils = !decide (vs.length = 0) := by
  have hboth := h.both field "$type" (.text "array") "$not" (.single "$size" (.int 0))
    (by decide) (by decide) (by decide)
  rw [h.arrayType field vs hvs, Bool.true_and] at hboth
  have hnot := h.notFulfilling field [(.text "$size", .int 0)] (by decide)
  exact (hboth.trans hnot).trans (congrArg not (h.arraySize field vs hvs 0))

end UsualMeaning

theorem Test.holds_opposite (h : UsualMeaning scalar doc fulfils) (field : String) (t : Test)
    (hfit : t.Fits scalar doc field) :
    (t.opposite.query field).holdsBy fulfils = !(t.query field).holdsBy fulfils := by
  cases t with
  | equality holds v =>
    cases v with
    | text s =>
      by_cases hf : field = Mapping.nativeField
      · simpa only [opposite, query, if_pos hf] using h.holds_equality field holds _
      · simpa only [opposite, query, if_neg hf] using h.holds_pattern field holds _
    | _ => exact h.holds_equality field holds _
  | text part holds s => exact h.holds_pattern field holds _
  | comparison c bound =>
    obtain ⟨v, i, x, b, hv, hx, hb⟩ := hfit
    have compared (c : Comparison) :
        (Query.field field (.comparison c (bound.nativeFor field))).holdsBy fulfils =
          c.compares x b := h.compares field v i x _ b hv hx hb c
    rw [opposite, query, query, compared, compared, Comparison.compares_opposite]
  | range holds low high =>
    obtain ⟨v, i, x, a, b, hv, hx, ha, hb⟩ := hfit
    have inside := h.holds_between hv hx ha hb
    have outside := h.holds_outside hv hx ha hb
    -- Not between the bounds is below the one or above the other, even where they are crossed.
    have hlow := Comparison.compares_opposite .greaterOrEqual x a
    have hhigh := Comparison.compares_opposite .lessOrEqual x b
    cases holds with
    | true =>
      refine outside.trans ?_
      rw [query, inside, Bool.not_and]
      exact congrArg₂ or hlow hhigh
    | false =>
      refine inside.trans ?_
      rw [query, outside, Bool.not_or, ← Comparison.compares_opposite,
        ← Comparison.compares_opposite]
      rfl
  | membership holds items =>
    cases holds <;>
      simp [opposite, query, Query.holdsBy, Query.holds, Condition.document, h.notAmong]
  | emptiness holds =>
    obtain ⟨vs, hvs⟩ := hfit
    have empty := h.holds_emptyArray hvs
    have filled := h.holds_filledArray hvs
    cases holds with
    | true => exact filled.trans (congrArg not empty.symm)
    | false => exact empty.trans (by rw [query, filled, Bool.not_not])

/-- Whether the field that a predicate tests holds what the test is for. -/
def Predicate.Fits (m : Mapping) (scalar : (i : ι) → Value → Option (T i)) (doc : Document)
    (p : Predicate) : Prop := p.test.converted.Fits scalar doc (m.storageName p.field)

theorem Predicate.holds_opposite (m : Mapping) (h : UsualMeaning scalar doc fulfils) (p : Predicate)
    (hfit : p.Fits m scalar doc) :
    (p.opposite.queryIn m).holdsBy fulfils = !(p.queryIn m).holdsBy fulfils := by
  have hquery : p.opposite.queryIn m = p.test.converted.opposite.query (m.storageName p.field) := by
    rw [← Test.converted_opposite]
    rfl
  rw [hquery]
  exact Test.holds_opposite h _ _ hfit

end Order

theorem Predicate.query_opposite_error (m : MappingArgument) (p : Predicate) (e : Failure) :
    p.opposite.query m = .error e ↔ p.query m = .error e := by
  have hfield : p.opposite.field = p.field := rfl
  have htest : p.opposite.test = p.test.opposite := rfl
  unfold Predicate.query
  rw [hfield, htest, Test.prepared_eq, Test.prepared_eq, Test.refusesPreparation_opposite]
  cases m.storageField (.text p.field) <;> cases p.test.refusesPreparation <;> simp

namespace Clause

theorem query_mustNot_error (m : MappingArgument) (c : Clause) (e : Failure) :
    c.query m .mustNot = .error e ↔ c.query m .should = .error e := by
  have hqueries := Outcome.mapM_error_congr
    (fun p => (ClauseGroup.mustNot.asked p).query m) (fun p => (ClauseGroup.should.asked p).query m)
    c.arranged (fun p e => Predicate.query_opposite_error m p e) e
  unfold query
  cases c.isEmpty with
  | true => simp
  | false =>
    cases hn : c.arranged.mapM (fun p => (ClauseGroup.mustNot.asked p).query m) <;>
      cases hs : c.arranged.mapM (fun p => (ClauseGroup.should.asked p).query m) <;> simp_all

/-- The filter that excludes predicates, and the one that has them as alternatives. -/
def excluded (c : Clause) : Filter := ⟨[], c, []⟩

def alternatives (c : Clause) : Filter := ⟨[], [], c⟩

theorem outcome_excluded_error (m : MappingArgument) (c : Clause) (e : Failure) :
    (queryOf (.filter c.excluded) m).outcome = .error e ↔
      (queryOf (.filter c.alternatives) m).outcome = .error e := by
  have hclause := query_mustNot_error m c e
  have hcopy : c.excluded.isCopyable = c.alternatives.isCopyable := by
    simp [excluded, alternatives, Filter.isCopyable, isCopyable]
  have hnone (group : ClauseGroup) : query m group [] = .ok none := rfl
  rw [Filter.outcome_queryOf, Filter.outcome_queryOf, Filter.query, Filter.query, hcopy]
  cases c.alternatives.isCopyable with
  | false => rfl
  | true =>
    cases hn : c.query m .mustNot <;> cases hs : c.query m .should <;>
      simp_all [excluded, alternatives, Except.map]

theorem outcome_excluded {m : Mapping} {c : Clause} (h : ∀ p ∈ c, p.IsStated m) :
    (queryOf (.filter c.excluded) m).outcome = .ok (c.excluded.queryIn m).document ∧
      (queryOf (.filter c.alternatives) m).outcome = .ok (c.alternatives.queryIn m).document := by
  have hmaps : ∀ p ∈ c, m.maps p.field = true := fun p hp => (h p hp).maps
  have hcopy : ∀ p ∈ c, p.test.operand.holdsView = false := fun p hp => (h p hp).isCopyable
  have hprep : ∀ p ∈ c, p.test.refusesPreparation = false := fun p hp => (h p hp).isPrepared
  constructor
  · rw [Filter.outcome_eq m _ (by simpa [excluded, Filter.predicates] using hmaps)
      (by simpa [excluded, Filter.isCopyable, isCopyable] using hcopy)]
    have hno : c.excluded.refusesPreparation = false := by
      simpa [excluded, Filter.refusesPreparation, refusesPreparation] using hprep
    rw [hno]
    rfl
  · rw [Filter.outcome_eq m _ (by simpa [alternatives, Filter.predicates] using hmaps)
      (by simpa [alternatives, Filter.isCopyable, isCopyable] using hcopy)]
    have hno : c.alternatives.refusesPreparation = false := by
      simpa [alternatives, Filter.refusesPreparation, refusesPreparation] using hprep
    rw [hno]
    rfl

/-- Excluding predicates is the contrary of having them as alternatives, on every document whose fields
hold what they are tested for. Neither has a query only if the same failure keeps both from it, and then
some predicate cannot be stated. -/
theorem excluded_holds_iff (m : Mapping) (c : Clause) (hne : c ≠ []) :
    (∃ e, (queryOf (.filter c.excluded) m).outcome = .error e ∧
        (queryOf (.filter c.alternatives) m).outcome = .error e ∧ ∃ p ∈ c, ¬p.IsStated m) ∨
      ∃ none any, (queryOf (.filter c.excluded) m).outcome = .ok none ∧
        (queryOf (.filter c.alternatives) m).outcome = .ok any ∧
        ∀ (ι : Type) (T : ι → Type) [∀ i, LinearOrder (T i)]
          (scalar : (i : ι) → Value → Option (T i)) (doc : Document)
          (fulfils : String → Value → Bool), UsualMeaning scalar doc fulfils →
          (∀ p ∈ c, p.Fits m scalar doc) →
          (QueryDocument.holds fulfils none = true ↔ QueryDocument.holds fulfils any = false) := by
  cases hoc : (queryOf (.filter c.excluded) m).outcome with
  | error e =>
    refine .inl ⟨e, rfl, (outcome_excluded_error m c e).mp hoc, ?_⟩
    by_contra hall
    have h : ∀ p ∈ c, p.IsStated m := by simpa using hall
    rw [(outcome_excluded h).1] at hoc
    simp at hoc
  | ok none =>
    have h : ∀ p ∈ c, p.IsStated m := by
      have hstated := Filter.isStated_of_outcome hoc
      simpa [excluded, Filter.predicates] using hstated
    rw [(outcome_excluded h).1] at hoc
    obtain rfl := Except.ok.inj hoc
    refine .inr ⟨_, _, rfl, (outcome_excluded h).2, ?_⟩
    intro ι T _ scalar doc fulfils husual hfits
    have opposite (p : Predicate) (hp : p ∈ c) := Predicate.holds_opposite m husual p (hfits p hp)
    have hnone : QueryDocument.holds fulfils (c.excluded.queryIn m).document = true ↔
        ∀ p ∈ c, (p.opposite.queryIn m).holdsBy fulfils = true := by
      rw [Filter.holds_document, Filter.holds_queryIn]
      simp [excluded, Filter.isEmpty, hne]
    have hany : QueryDocument.holds fulfils (c.alternatives.queryIn m).document = true ↔
        ∃ p ∈ c, (p.queryIn m).holdsBy fulfils = true := by
      rw [Filter.holds_document, Filter.holds_queryIn]
      simp [alternatives, Filter.isEmpty, hne]
    calc QueryDocument.holds fulfils (c.excluded.queryIn m).document = true
        ↔ ∀ p ∈ c, (p.opposite.queryIn m).holdsBy fulfils = true := hnone
      _ ↔ ∀ p ∈ c, ¬(p.queryIn m).holdsBy fulfils = true :=
          forall₂_congr fun p hp => by rw [opposite p hp]; simp
      _ ↔ ¬∃ p ∈ c, (p.queryIn m).holdsBy fulfils = true := by simp
      _ ↔ ¬QueryDocument.holds fulfils (c.alternatives.queryIn m).document = true :=
          not_congr hany.symm
      _ ↔ QueryDocument.holds fulfils (c.alternatives.queryIn m).document = false := by simp

/-- A customer with neither a new order nor a tag. -/
def ken : Document :=
  [(.text "_id", .int 7), (.text "customer_name", .text "Ken"), (.text "total_orders", .int 2),
    (.text "tags", .list [])]

/-- Predicates of three kinds, one of them a range that holds nothing. -/
def unusual : Clause :=
  [⟨"orders", .range true (.int 5) (.int 2), rfl⟩, ⟨"name", .text .start true "J", rfl⟩,
    ⟨"tags", .emptiness false, rfl⟩]

theorem excluded_holds_iff_unusual :
    unusual ≠ [] ∧ ∃ none any, (queryOf (.filter unusual.excluded) Filter.customers).outcome = .ok none ∧
      (queryOf (.filter unusual.alternatives) Filter.customers).outcome = .ok any ∧
      UsualMeaning Value.integer? ken ken.fulfils ∧
      (∀ p ∈ unusual, p.Fits Filter.customers Value.integer? ken) ∧
      (QueryDocument.holds ken.fulfils none = true ↔ QueryDocument.holds ken.fulfils any = false) := by
  have hstated : ∀ p ∈ unusual, p.IsStated Filter.customers := by
    simp only [unusual, List.forall_mem_cons, List.not_mem_nil, false_implies, implies_true, and_true]
    exact ⟨⟨by decide, by decide, by decide⟩, ⟨by decide, by decide, by decide⟩,
      ⟨by decide, by decide, by decide⟩⟩
  have hfits : ∀ p ∈ unusual, p.Fits Filter.customers Value.integer? ken := by
    simp only [unusual, List.forall_mem_cons, List.not_mem_nil, false_implies, implies_true, and_true]
    exact ⟨⟨.int 2, (), 2, 5, 2, rfl, rfl, rfl, rfl⟩, trivial, ⟨[], rfl⟩⟩
  refine ⟨by simp [unusual], ?_⟩
  rcases excluded_holds_iff Filter.customers unusual (by simp [unusual]) with
    ⟨e, _, _, p, hp, hno⟩ | ⟨none, any, hnone, hany, h⟩
  · exact absurd (hstated p hp) hno
  · exact ⟨none, any, hnone, hany, ken.usualMeaning, hfits,
      h Unit _ Value.integer? ken ken.fulfils ken.usualMeaning hfits⟩

end Clause

end EntityStore

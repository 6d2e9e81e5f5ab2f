import EntityStore.Proofs.Filter.History
import EntityStore.Proofs.Query.Failing

namespace EntityStore

namespace Predicate

theorem kind_of_ofTest {field : String} {test : Test} {p : Predicate} (h : ofTest field test = .ok p) :
    p.test.kind = test.kind := by
  rw [ofTest] at h
  split at h
  · obtain rfl := Except.ok.inj h
    rfl
  · exact absurd h (by simp)

theorem kind_of_ofValues {kind : TestKind} {field first second : Value} {p : Predicate}
    (h : ofValues kind field first second = .ok p) : p.test.kind = kind := by
  cases kind with
  | membership holds =>
    obtain ⟨items, _, h⟩ := Outcome.bind_eq_ok.mp h
    obtain ⟨name, _, h⟩ := Outcome.bind_eq_ok.mp h
    exact kind_of_ofTest h
  | text part holds =>
    obtain ⟨name, _, h⟩ := Outcome.bind_eq_ok.mp h
    obtain ⟨s, _, h⟩ := Outcome.bind_eq_ok.mp h
    exact kind_of_ofTest h
  | _ =>
    obtain ⟨name, _, h⟩ := Outcome.bind_eq_ok.mp h
    exact kind_of_ofTest h

end Predicate

namespace FilterStep

/-- Whether a step adds a predicate of a kind to a group, or tries to. -/
def addsTo (group : ClauseGroup) (kind : TestKind) : FilterStep → Bool
  | .add into given _ _ _ => into == group && given == kind
  | _ => false

def isAddition : FilterStep → Bool
  | .add _ _ _ _ _ => true
  | _ => false

theorem clears_of_isAddition {step : FilterStep} (h : step.isAddition = true) (group : ClauseGroup) :
    step.clears group = false := by
  cases step with
  | add into kind field first second => rfl
  | _ => exact absurd h Bool.false_ne_true

/-- A predicate of a kind in a group comes from a step for that kind and group. -/
theorem addsTo_of_added? {step : FilterStep} {group : ClauseGroup} {p : Predicate}
    (h : step.added? group = some p) (kind : TestKind) :
    step.addsTo group kind = (p.test.kind == kind) := by
  cases step with
  | add into given field first second =>
    rw [added?] at h
    split at h
    · next hinto =>
      cases hp : Predicate.ofValues given field first second with
      | error e => simp [hp, Except.toOption] at h
      | ok q =>
        obtain rfl : q = p := by simpa [hp, Except.toOption] using h
        simp [addsTo, hinto, Predicate.kind_of_ofValues hp]
    · cases h
  | _ => cases h

/-- The same steps in another order, in which those for one group and one kind follow each other as before. -/
structure Reorders (steps steps' : List FilterStep) : Prop where
  perm : steps.Perm steps'
  order : ∀ group kind, steps.filter (addsTo group kind) = steps'.filter (addsTo group kind)

end FilterStep

namespace Clause

variable {c c' : Clause}

theorem arranged_congr (h : ∀ kind, c.ofKind kind = c'.ofKind kind) : c.arranged = c'.arranged :=
  List.flatMap_congr fun kind _ => congrArg byField (h kind)

theorem perm_of_arranged_eq (h : c.arranged = c'.arranged) : c.Perm c' :=
  (arranged_perm c).symm.trans (h ▸ arranged_perm c')

theorem query_congr (h : c.arranged = c'.arranged) (m : MappingArgument) (group : ClauseGroup) :
    c.query m group = c'.query m group := by
  rw [query, query, h, (perm_of_arranged_eq h).isEmpty_eq]

end Clause

namespace Filter

open FilterStep

variable {f g : Filter} {steps steps' : List FilterStep}

theorem clause_foldl_additions (h : ∀ s ∈ steps, s.isAddition = true) (group : ClauseGroup) (f : Filter) :
    (steps.foldl after f).clause group = f.clause group ++ steps.filterMap (·.added? group) := by
  induction steps generalizing f with
  | nil => simp
  | cons step steps ih =>
    obtain ⟨hstep, hsteps⟩ := List.forall_mem_cons.mp h
    rw [List.foldl_cons, ih hsteps, clause_after, clears_of_isAddition hstep, if_neg Bool.false_ne_true]
    cases hadded : step.added? group <;> simp [hadded]

/-- Steps that clear nothing leave the predicates of a group in the order in which they were added. -/
theorem clause_built (h : ∀ s ∈ steps, s.isAddition = true) (group : ClauseGroup) :
    (built steps).clause group = steps.filterMap (·.added? group) := by
  rw [built, clause_foldl_additions h, clause_empty, List.nil_append]

/-- The predicates of one kind in a group come from the steps for that group and kind. -/
theorem ofKind_added (steps : List FilterStep) (group : ClauseGroup) (kind : TestKind) :
    Clause.ofKind kind (steps.filterMap (·.added? group)) =
      (steps.filter (addsTo group kind)).filterMap (·.added? group) := by
  induction steps with
  | nil => rfl
  | cons step steps ih =>
    cases hadded : step.added? group with
    | none =>
      rw [List.filterMap_cons_none hadded, ih, List.filter_cons]
      split
      · rw [List.filterMap_cons_none hadded]
      · rfl
    | some p =>
      rw [List.filterMap_cons_some hadded, Clause.ofKind, List.filter_cons, List.filter_cons,
        addsTo_of_added? hadded kind]
      split
      · rw [List.filterMap_cons_some hadded, ← ih, Clause.ofKind]
      · exact ih

theorem arranged_clause_built (h : Reorders steps steps') (hsteps : ∀ s ∈ steps, s.isAddition = true)
    (group : ClauseGroup) : ((built steps).clause group).arranged = ((built steps').clause group).arranged := by
  have hsteps' : ∀ s ∈ steps', s.isAddition = true := fun s hs => hsteps s (h.perm.mem_iff.mpr hs)
  apply Clause.arranged_congr
  intro kind
  rw [clause_built hsteps, clause_built hsteps', ofKind_added, ofKind_added, h.order]

theorem query_congr (h : ∀ group, (f.clause group).arranged = (g.clause group).arranged) (m : MappingArgument) :
    f.query m = g.query m := by
  have hmust : f.must.arranged = g.must.arranged := h .must
  have hmustNot : f.mustNot.arranged = g.mustNot.arranged := h .mustNot
  have hshould : f.should.arranged = g.should.arranged := h .should
  have hcopy : f.isCopyable = g.isCopyable :=
    congrArg₂ and
      (congrArg₂ and (Clause.perm_of_arranged_eq hmust).all_eq (Clause.perm_of_arranged_eq hmustNot).all_eq)
      (Clause.perm_of_arranged_eq hshould).all_eq
  rw [query, query, hcopy, Clause.query_congr hmust, Clause.query_congr hmustNot, Clause.query_congr hshould]

/-- Building a filter in another order, in which the steps for one group and one kind follow each other as before, gives
the same query. If there is none, the failure is the same, and it is that of a field without a storage name unless a
value cannot be copied. -/
theorem outcome_of_reorders (m : Mapping) (h : Reorders steps steps') (hsteps : ∀ s ∈ steps, s.isAddition = true) :
    (∃ d, (queryOf (.filter (built steps)) m).outcome = .ok d ∧
      (queryOf (.filter (built steps')) m).outcome = .ok d) ∨
    ∃ e, (queryOf (.filter (built steps)) m).outcome = .error e ∧
      (queryOf (.filter (built steps')) m).outcome = .error e ∧
      ((∀ p ∈ (built steps).predicates, p.isCopyable = true) → e.kind? = some .fieldMapping) := by
  have hsame : (queryOf (.filter (built steps')) m).outcome = (queryOf (.filter (built steps)) m).outcome := by
    rw [outcome_queryOf, outcome_queryOf, query_congr (arranged_clause_built h hsteps)]
  rw [hsame]
  cases houtcome : (queryOf (.filter (built steps)) m).outcome with
  | ok d => exact .inl ⟨d, rfl, rfl⟩
  | error e => exact .inr ⟨e, rfl, rfl, kind?_of_outcome houtcome⟩

/-- Steps for all groups, of which two are for one kind of test in one group. -/
def started : List FilterStep :=
  [.add .should (.text .finish true) (.text "name") (.text "mori") .null,
    .add .must (.equality true) (.text "orders") (.int 3) .null,
    .add .mustNot (.emptiness true) (.text "tags") .null .null,
    .add .must (.equality true) (.text "name") (.text "Ken") .null]

/-- The same steps, of which the first comes last. -/
def delayed : List FilterStep := started.tail ++ started.take 1

theorem reorders_started : Reorders started delayed where
  perm := (List.perm_append_singleton _ _).symm
  order := by
    intro group kind
    cases group <;> simp [started, delayed, addsTo, List.filter_cons]

theorem outcome_of_reorders_started :
    Reorders started delayed ∧ (∀ s ∈ started, s.isAddition = true) ∧
      ∃ d, (queryOf (.filter (built started)) customers).outcome = .ok d ∧
        (queryOf (.filter (built delayed)) customers).outcome = .ok d := by
  have hadditions : ∀ s ∈ started, s.isAddition = true := by decide
  have hstated : ∀ p ∈ (built started).predicates, customers.maps p.field = true ∧ p.isCopyable = true := by
    decide +kernel
  refine ⟨reorders_started, hadditions, ?_⟩
  rcases outcome_of_reorders customers reorders_started hadditions with hd | ⟨e, he, _⟩
  · exact hd
  · have hok := outcome_of_isStated fun p hp => Predicate.isStated_iff.mpr (hstated p hp)
    exact (Outcome.ok_ne_error hok he).elim

end Filter

end EntityStore

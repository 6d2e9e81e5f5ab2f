import EntityStore.Filter.Basic
import EntityStore.Proofs.Outcome

namespace EntityStore

/-- What holds of every element of a list and those after it. -/
theorem forall_split_cons {α : Type} {first : α} {rest : List α} {P : α → List α → Prop} :
    (∀ before x later, first :: rest = before ++ x :: later → P x later) ↔
      P first rest ∧ ∀ before x later, rest = before ++ x :: later → P x later := by
  constructor
  · intro h
    exact ⟨h [] first rest rfl, fun before x later hsplit => h (first :: before) x later (congrArg _ hsplit)⟩
  · rintro ⟨hfirst, hrest⟩ before x later hsplit
    cases before with
    | nil =>
      obtain ⟨rfl, rfl⟩ := List.cons.inj hsplit
      exact hfirst
    | cons b before => exact hrest before x later (List.cons.inj hsplit).2

/-- A step in building a filter. -/
inductive FilterStep where
  | add (group : ClauseGroup) (kind : TestKind) (field first second : Value)
  | clearGroup (group : ClauseGroup)
  | clear

theorem Filter.outcome_addValues (f : Filter) (group : ClauseGroup) (kind : TestKind) (field first second : Value) :
    (f.addValues group kind field first second).outcome =
      (Predicate.ofValues kind field first second).map fun p => f.add group p := by
  rw [addValues, Reported.outcome_bind]
  cases Predicate.ofValues kind field first second <;> rfl

namespace FilterStep

def apply (step : FilterStep) (f : Filter) : Reported Filter :=
  match step with
  | .add group kind field first second => f.addValues group kind field first second
  | .clearGroup group => pure (f.clearClause group)
  | .clear => pure Filter.empty

def group? : FilterStep → Option ClauseGroup
  | .add group _ _ _ _ => some group
  | _ => none

def clears (group : ClauseGroup) : FilterStep → Bool
  | .add _ _ _ _ _ => false
  | .clearGroup cleared => cleared = group
  | .clear => true

/-- The predicate that a step adds to a group. -/
def added? (group : ClauseGroup) : FilterStep → Option Predicate
  | .add into kind field first second =>
    if into = group then (Predicate.ofValues kind field first second).toOption else none
  | _ => none

theorem isSome_added? (step : FilterStep) (group : ClauseGroup) (f : Filter) :
    (step.added? group).isSome = true ↔
      step.group? = some group ∧ ∃ g, (step.apply f).outcome = .ok g := by
  cases step with
  | add into kind field first second =>
    rw [added?, group?, apply, Filter.outcome_addValues]
    cases Predicate.ofValues kind field first second <;> simp [Except.map, Except.toOption]
  | clearGroup cleared => simp [added?, group?]
  | clear => simp [added?, group?]

theorem added?_of_clears {step : FilterStep} {group : ClauseGroup} (h : step.clears group = true) :
    step.added? group = none := by
  cases step with
  | add into kind field first second => exact absurd h Bool.false_ne_true
  | clearGroup cleared => rfl
  | clear => rfl

end FilterStep

namespace Filter

/-- The filter after a step. One that fails leaves it as it was. -/
def after (f : Filter) (step : FilterStep) : Filter :=
  match (step.apply f).outcome with
  | .ok g => g
  | .error _ => f

def built (steps : List FilterStep) : Filter := steps.foldl after empty

theorem clause_setClause (f : Filter) (group other : ClauseGroup) (c : Clause) :
    (f.setClause group c).clause other = if group = other then c else f.clause other := by
  cases group <;> cases other <;> rfl

theorem clause_empty (group : ClauseGroup) : empty.clause group = [] := by
  cases group <;> rfl

theorem isEmpty_iff_clause (f : Filter) : f.isEmpty = true ↔ ∀ group, f.clause group = [] := by
  have hgroups : f.isEmpty = true ↔ f.must = [] ∧ f.mustNot = [] ∧ f.should = [] := by
    simp [isEmpty, and_assoc]
  rw [hgroups]
  constructor
  · rintro ⟨hmust, hmustNot, hshould⟩ group
    cases group with
    | must => exact hmust
    | mustNot => exact hmustNot
    | should => exact hshould
  · exact fun h => ⟨h .must, h .mustNot, h .should⟩

theorem clause_after (f : Filter) (step : FilterStep) (group : ClauseGroup) :
    (f.after step).clause group =
      if step.clears group then [] else f.clause group ++ (step.added? group).toList := by
  cases step with
  | add into kind field first second =>
    rw [after, FilterStep.apply, outcome_addValues, FilterStep.added?]
    cases Predicate.ofValues kind field first second with
    | error e => simp [Except.map, Except.toOption, FilterStep.clears]
    | ok p =>
      by_cases hinto : into = group <;>
        simp [Except.map, Except.toOption, FilterStep.clears, add, clause_setClause, hinto]
  | clearGroup cleared =>
    by_cases hcleared : cleared = group <;>
      simp [after, FilterStep.apply, FilterStep.clears, FilterStep.added?, clearClause, clause_setClause, hcleared]
  | clear => simp [after, FilterStep.apply, FilterStep.clears, clause_empty]

/-- A group is without predicates exactly when it was cleared after each that was added to it. -/
theorem clause_foldl_after (steps : List FilterStep) (group : ClauseGroup) (f : Filter) :
    (steps.foldl after f).clause group = [] ↔
      (f.clause group = [] ∨ ∃ s ∈ steps, s.clears group = true) ∧
      ∀ before step later, steps = before ++ step :: later → (step.added? group).isSome = true →
        ∃ s ∈ later, s.clears group = true := by
  induction steps generalizing f with
  | nil => simp
  | cons first rest ih =>
    rw [List.foldl_cons, ih, clause_after, forall_split_cons]
    cases hfirst : first.clears group with
    | true => simp [FilterStep.added?_of_clears hfirst, hfirst]
    | false =>
      -- What the first step adds stands until a step of the rest clears it.
      cases first.added? group with
      | none => simp [hfirst]
      | some p =>
        have hstands : f.clause group ++ [p] ≠ [] := by simp
        simp only [Bool.false_eq_true, if_false, Option.toList_some, hstands, false_or, Option.isSome_some,
          forall_const, List.mem_cons, exists_eq_or_imp, hfirst]
        exact ⟨fun h => ⟨.inr h.1, h⟩, fun h => h.2⟩

/-- After every step that has added to a group there is one that clears the group. -/
def AreCleared (steps : List FilterStep) : Prop :=
  ∀ before step later group, steps = before ++ step :: later → step.group? = some group →
    (∃ g, (step.apply (built before)).outcome = .ok g) → ∃ s ∈ later, s.clears group = true

/-- A filter is empty exactly when all that was added to it has been cleared. -/
theorem isEmpty_built (steps : List FilterStep) : (built steps).isEmpty = true ↔ AreCleared steps := by
  rw [isEmpty_iff_clause]
  constructor
  · intro h before step later group hsplit hgroup hsucceeds
    have hadds := (FilterStep.isSome_added? step group (built before)).mpr ⟨hgroup, hsucceeds⟩
    exact ((clause_foldl_after steps group empty).mp (h group)).2 before step later hsplit hadds
  · intro h group
    refine (clause_foldl_after steps group empty).mpr ⟨.inl (clause_empty group), ?_⟩
    intro before step later hsplit hadds
    obtain ⟨hgroup, hsucceeds⟩ := (FilterStep.isSome_added? step group (built before)).mp hadds
    exact h before step later group hsplit hgroup hsucceeds

end Filter

end EntityStore

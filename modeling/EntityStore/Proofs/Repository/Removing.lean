import EntityStore.Engine.Scripted
import EntityStore.Proofs.Engine.Asking
import EntityStore.Proofs.Filter.Entries
import EntityStore.Proofs.Filter.History
import EntityStore.Proofs.Query.Joining
import EntityStore.Proofs.Repository.Operation

namespace EntityStore

open QueryDocument (IsJoined)

/-- A request to delete what a query selects that is not the one for everything. -/
def Request.IsSelective (q : Request) : Prop :=
  ∃ d, q = .deleteMany d ∧ IsJoined d ∧ QueryDocument.isFilled d = true

namespace Repository

variable {α : Type} {r : Repository α} {f : Filter}

theorem asks_removeAll (hstrategies : r.strategies = .standard) (hf : f.isEmpty = false) :
    (r.removeAll (.filter f)).Asks Request.IsSelective := by
  rw [removeAll, hstrategies]
  · refine Program.Asks.bind_ofReported fun d hd => ?_
    have hselective : Request.IsSelective (.deleteMany d) := by
      obtain rfl := Filter.eq_document_of_outcome hd
      exact ⟨_, rfl, Filter.isJoined_queryIn r.mapping hf, Filter.isFilled_queryIn r.mapping f⟩
    refine Program.Asks.bind (Program.Asks.during _ ?_) fun n => ?_
    · exact Program.Asks.bind (Program.Asks.opened _ _) fun _ => Program.Asks.request hselective
    · exact Program.Asks.bind_ofExcept fun _ _ => Program.Asks.record _ _
  · intro habsent
    cases habsent

end Repository

namespace Filter

/-- A step leaves the entries of a group as they are, records one predicate in them, or clears them. -/
theorem entries_after (f : Filter) (step : FilterStep) (group : ClauseGroup) :
    ((f.after step).clause group).entries = if step.clears group then [] else
      (step.added? group).elim (f.clause group).entries fun p => FilterEntries.record p (f.clause group).entries := by
  rw [clause_after]
  cases step.clears group with
  | true => rfl
  | false =>
    cases step.added? group with
    | none => simp
    | some p => exact Clause.entries_append_one _ p

/-- However a filter was built: a step that failed has left it as it was, and one that succeeds records one predicate
under its kind and field or clears what is recorded. No kind is without a field and no field without a value, the
query goes through all that is recorded, kind by kind, and the filter is empty exactly when no kind has a field, and
when all that was added to it has been cleared. It has the query for everything only if it is empty, and otherwise one
that joins something wherever it joins, unless a value cannot be prepared. Nothing but what that query selects is
removed with it. -/
theorem built_isEmpty_or_isJoined (steps : List FilterStep) :
    let f := built steps
    (∀ step e, (step.apply f).outcome = .error e → f.after step = f) ∧
    (∀ step group, ((f.after step).clause group).entries = if step.clears group then [] else
      (step.added? group).elim (f.clause group).entries fun p => FilterEntries.record p (f.clause group).entries) ∧
    (∀ group, FilterEntries.AreFilled (f.clause group).entries) ∧
    (∀ group, FilterEntries.walked (f.clause group).entries =
      (f.clause group).arranged.map fun p => (p.test.kind, p.field, p.test.operand)) ∧
    (f.isEmpty = true ↔ ∀ group, ∀ entry ∈ (f.clause group).entries, entry.2 = []) ∧
    (f.isEmpty = true ↔ AreCleared steps) ∧
    (∀ m : Mapping, (∀ p ∈ f.predicates, m.maps p.field = true) → f.isCopyable = true →
      ((queryOf (.filter f) m).outcome = .ok (.plain []) ↔ f.isEmpty = true) ∧
      (f.isEmpty = false →
        f.refusesPreparation = true ∧ (queryOf (.filter f) m).outcome = .error Value.viewRefusal ∨
        f.refusesPreparation = false ∧ ∃ d, (queryOf (.filter f) m).outcome = .ok d ∧ IsJoined d ∧
          QueryDocument.isFilled d = true)) ∧
    (f.isEmpty = false → ∀ (α σ : Type) (r : Repository α) (engine : Engine σ) (s : Session σ),
      r.strategies = .standard →
      ∀ q ∈ ((r.removeAll (.filter f)).run engine s).requests, q.IsSelective) := by
  intro f
  refine ⟨?_, entries_after f, fun group => Clause.areFilled_entries _, fun group => Clause.walked_entries _, ?_,
    isEmpty_built steps, ?_, ?_⟩
  · intro step e hfails
    rw [after, hfails]
  · simp only [isEmpty_iff_clause, Clause.eq_nil_iff_entries]
  · intro m hmaps hcopy
    exact ⟨outcome_eq_everything_iff hmaps hcopy, outcome_isJoined hmaps hcopy⟩
  · intro hne α σ r engine s hstrategies
    exact (Repository.asks_removeAll hstrategies hne).requests s

/-- A predicate that is cleared, one that is refused for its field, and an alternative that stays. -/
def rebuilding : List FilterStep :=
  [.add .must (.equality true) (.text "name") (.text "Ken") .null, .clearGroup .must,
    .add .mustNot (.membership true) (.text "") (.list [.int 1]) .null,
    .add .should (.range true) (.text "orders") (.int 2) (.int 5)]

theorem built_isEmpty_or_isJoined_rebuilding :
    ¬AreCleared rebuilding ∧
      (∀ p ∈ (built rebuilding).predicates, shoppers.maps p.field = true) ∧
      (built rebuilding).isCopyable = true ∧
      (∃ d, (queryOf (.filter (built rebuilding)) shoppers).outcome = .ok d ∧ IsJoined d ∧
        QueryDocument.isFilled d = true) ∧
      ∀ q ∈ ((shop.removeAll (.filter (built rebuilding))).run scriptedEngine
        ⟨.start [.value (.int 3)] 0, false⟩).requests, q.IsSelective := by
  obtain ⟨_, _, _, _, _, hcleared, hqueries, hremoving⟩ := built_isEmpty_or_isJoined rebuilding
  have hne : (built rebuilding).isEmpty = false := by decide +kernel
  have hmaps : ∀ p ∈ (built rebuilding).predicates, shoppers.maps p.field = true := by decide +kernel
  have hcopy : (built rebuilding).isCopyable = true := by decide +kernel
  refine ⟨fun h => absurd (hcleared.mpr h) (by simp [hne]), hmaps, hcopy, ?_, ?_⟩
  · rcases (hqueries shoppers hmaps hcopy).2 hne with ⟨hrefuses, _⟩ | ⟨_, hd⟩
    · exact absurd hrefuses (by decide +kernel)
    · exact hd
  · exact hremoving hne Unit _ shop scriptedEngine _ rfl

end Filter

end EntityStore

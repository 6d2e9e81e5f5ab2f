import EntityStore.Proofs.Engine.Collection
import EntityStore.Proofs.Engine.Run
import EntityStore.Proofs.Query.Spelling
import EntityStore.Repository.Reading

namespace EntityStore

open Program

namespace Repository

variable {α : Type} {r : Repository α} (habits : EngineHabits) (hydrate : r.hydrate = none)
  (strategies : r.strategies = .standard)

include strategies in
theorem outcome_filterQuery (filter : FilterArgument) :
    (r.strategies.filterQuery filter r.mapping).outcome = (queryOf filter r.mapping).outcome := by
  rw [strategies]
  rfl

include strategies in
theorem outcome_sortKeys_none : (r.strategies.sortKeys none r.mapping).outcome = .ok (.list []) := by
  rw [strategies]
  rfl

include strategies in
theorem outcome_projection_none : (r.strategies.projection none r.mapping).outcome = .ok .null := by
  rw [strategies]
  rfl

include hydrate in
theorem restored_eq (v : Value) : r.restored v = .ok (.plain v.normalized) := by
  rw [restored, hydrate]

include hydrate in
theorem restoredOption_eq (v : Option Value) :
    r.restoredOption v = .ok (v.map fun v => .plain v.normalized) := by
  cases v with
  | none => rfl
  | some v =>
    rw [restoredOption, restored_eq hydrate]
    rfl

/-- A cursor is opened on the documents that are found, in the order of the keys if there are any. -/
theorem openCursor_ends (query projection keys : Value) (c : Collection) :
    Ends (Collection.engine habits) (openCursor query projection keys) c (.ok ())
      { c with cursor := Collection.found habits query projection keys c.documents } := by
  have hfind : (Collection.engine habits).answer (.find query projection) c = (.ok (), { c with
      cursor := (c.documents.filter fun d => d.isSelected query).map (Collection.project habits projection) }) := rfl
  apply Ends.bind (Ends.request hfind)
  rw [Collection.found]
  split
  · exact Ends.request rfl
  · exact Ends.done _ _

include strategies

/-- The search by a filter finds the documents that its query selects. -/
theorem findRecords_finds {f : Filter} {q : Query}
    (hq : (queryOf (.filter f) r.mapping).outcome = .ok q.document) (c : Collection) :
    Succeeds (Collection.engine habits) (r.findRecords (.filter f) none none) c fun found after =>
      after.documents = c.documents ∧
        found = (c.documents.filter fun d => d.isSelected q.document).map .plain := by
  obtain ⟨shown, hshown⟩ := Filter.exists_display_of_queryOf hq
  refine Succeeds.bind_ofReported ((outcome_filterQuery strategies _).trans hq) ?_
  refine Succeeds.bind_ofReported (outcome_sortKeys_none strategies) ?_
  refine Succeeds.bind_ofReported (outcome_projection_none strategies) ?_
  have hfound : Collection.found habits q.document .null (.list []) c.documents =
      c.documents.filter fun d => d.isSelected q.document :=
    Collection.map_project_null habits _
  have hcursor := openCursor_ends habits q.document .null (.list []) c
  rw [hfound] at hcursor
  have hfetch : Ends (Collection.engine habits) (do
      r.opened
      openCursor q.document .null (.list [])
      request .fetch) c (.ok ((c.documents.filter fun d => d.isSelected q.document).map .plain))
      { c with cursor := c.documents.filter fun d => d.isSelected q.document } :=
    Ends.bind (Ends.opened _ _ c) (Ends.bind hcursor (Ends.request rfl))
  refine Succeeds.bind_ends (hfetch.during _) ?_
  refine Succeeds.bind_ofExcept hshown ?_
  exact Succeeds.bind_record (Succeeds.done ⟨rfl, rfl⟩)

include hydrate

/-- What a repository that makes no entities finds are those documents, made plain. -/
theorem findBy_finds {f : Filter} {q : Query}
    (hq : (queryOf (.filter f) r.mapping).outcome = .ok q.document) (c : Collection) :
    Succeeds (Collection.engine habits) (r.findBy (.filter f) none none) c fun found after =>
      after.documents = c.documents ∧ found =
        (c.documents.filter fun d => d.isSelected q.document).map fun d => .plain (Value.plain d).normalized := by
  refine Succeeds.bind (findRecords_finds habits strategies hq c) ?_
  rintro found after ⟨hafter, rfl⟩
  have hrestored := Outcome.mapM_ok r.restored (fun v => Found.plain v.normalized)
    ((c.documents.filter fun d => d.isSelected q.document).map .plain) fun v _ =>
      restored_eq hydrate v
  rw [hrestored, List.map_map]
  exact ⟨_, after, Ends.ofExcept _ after, hafter, rfl⟩

end Repository

end EntityStore

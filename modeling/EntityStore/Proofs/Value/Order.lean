import EntityStore.Proofs.Outcome
import EntityStore.Proofs.Sorting.Runs
import EntityStore.Value.Order

namespace EntityStore

namespace Value

theorem ordered_perm (keyed : List (SortKey × Value)) : (ordered keyed).Perm keyed := by
  rw [ordered]
  split
  · exact Sorting.sort_perm _ keyed
  · exact List.mergeSort_perm keyed _

theorem exists_keyed {v : Value} (h : ∃ shown, v.display = .ok shown) : ∃ key, v.keyed = .ok (key, v) := by
  obtain ⟨shown, hshown⟩ := h
  rw [keyed, SortKey.ofValue]
  split
  · rw [hshown]
    exact ⟨⟨v.bracket, .text shown⟩, rfl⟩
  · exact ⟨⟨v.bracket, v⟩, rfl⟩

theorem exists_mapM_keyed {vs : List Value} (h : ∀ v ∈ vs, ∃ shown, v.display = .ok shown) :
    ∃ pairs, vs.mapM keyed = .ok pairs ∧ pairs.map (·.2) = vs := by
  induction vs with
  | nil => exact ⟨[], rfl, rfl⟩
  | cons v vs ih =>
    obtain ⟨hv, hvs⟩ := List.forall_mem_cons.mp h
    obtain ⟨key, hkey⟩ := exists_keyed hv
    obtain ⟨pairs, hpairs, hvalues⟩ := ih hvs
    refine ⟨(key, v) :: pairs, ?_, ?_⟩
    · rw [List.mapM_cons, hkey, hpairs]
      rfl
    · rw [List.map_cons, hvalues]

/-- Values that can be shown can be sorted, in either direction. -/
theorem exists_sorted (d : Direction) {vs : List Value} (h : ∀ v ∈ vs, ∃ shown, v.display = .ok shown) :
    ∃ ws, sorted d vs = .ok ws ∧ ws.Perm vs := by
  obtain ⟨pairs, hpairs, hvalues⟩ := exists_mapM_keyed h
  rw [sorted, hpairs]
  refine ⟨_, rfl, ?_⟩
  rw [← hvalues]
  apply List.Perm.map
  cases d with
  | ascending => exact ordered_perm pairs
  | descending =>
    have hreversed := (ordered_perm pairs.reverse).trans (List.reverse_perm pairs)
    exact (List.reverse_perm _).trans hreversed

end Value

end EntityStore

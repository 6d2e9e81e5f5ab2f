import EntityStore.Filter.Basic
import Mathlib.Data.List.Perm.Basic

namespace EntityStore

section Grouping

variable {α κ : Type} [BEq κ] [LawfulBEq κ]

theorem mem_distinct (xs : List κ) (x : κ) : x ∈ distinct xs ↔ x ∈ xs := by
  induction xs with
  | nil => simp [distinct]
  | cons y ys ih =>
    by_cases h : y = x
    · simp [distinct, h]
    · simp [distinct, ih, h, Ne.symm h]

theorem nodup_distinct (xs : List κ) : (distinct xs).Nodup := by
  induction xs with
  | nil => simp [distinct]
  | cons x xs ih =>
    rw [distinct, List.nodup_cons]
    exact ⟨by simp, ih.filter _⟩

/-- Elements that are brought together by their keys are the same elements, if each key is gone through
once and none is left out. -/
theorem flatMap_filter_perm (key : α → κ) (ks : List κ) (xs : List α) (hks : ks.Nodup)
    (hmem : ∀ x ∈ xs, key x ∈ ks) : (ks.flatMap fun k => xs.filter fun x => key x == k).Perm xs := by
  induction xs with
  | nil => simp
  | cons x xs ih =>
    -- The first element is brought to the only place of its key, past all that come before that.
    obtain ⟨before, after, hsplit⟩ := List.append_of_mem (hmem x (by simp))
    have hbefore : ∀ k ∈ before, (key x == k) = false := by
      intro k hk
      have hnd := hsplit ▸ hks
      have hne := (List.nodup_append.mp hnd).2.2 k hk (key x) (by simp)
      simpa using Ne.symm hne
    have hafter : ∀ k ∈ after, (key x == k) = false := by
      intro k hk
      have hnd := (List.nodup_append.mp (hsplit ▸ hks)).2.1
      have hne := (List.nodup_cons.mp hnd).1
      simpa using fun h : key x = k => hne (h ▸ hk)
    have skip (ls : List κ) (h : ∀ k ∈ ls, (key x == k) = false) :
        (ls.flatMap fun k => (x :: xs).filter fun y => key y == k) =
          ls.flatMap fun k => xs.filter fun y => key y == k := by
      refine List.flatMap_congr ?_
      intro k hk
      simp [h k hk]
    have hrest := ih fun y hy => hmem y (by simp [hy])
    rw [hsplit, List.flatMap_append, List.flatMap_cons] at hrest ⊢
    rw [skip before hbefore, skip after hafter]
    have hx : ((x :: xs).filter fun y => key y == key x) = x :: xs.filter fun y => key y == key x := by
      simp
    rw [hx, List.cons_append]
    exact List.perm_middle.trans (hrest.cons x)

end Grouping

namespace TestKind

def rank (kind : TestKind) : Nat := all.idxOf kind

theorem pairwise_rank : all.Pairwise fun k l => k.rank ≤ l.rank := by decide

theorem nodup_all : all.Nodup := by decide

end TestKind

namespace Clause

theorem byField_perm (c : Clause) : c.byField.Perm c :=
  flatMap_filter_perm (fun p : Predicate => p.field) c.fields c (nodup_distinct _) fun _ hp =>
    (mem_distinct _ _).mpr (List.mem_map_of_mem hp)

/-- Arranging predicates neither loses nor doubles one. -/
theorem arranged_perm (c : Clause) : c.arranged.Perm c := by
  have hfields : c.arranged.Perm (TestKind.all.flatMap fun kind => c.ofKind kind) :=
    List.Perm.flatMap_left _ fun kind _ => byField_perm (c.ofKind kind)
  refine hfields.trans ?_
  exact flatMap_filter_perm (fun p : Predicate => p.test.kind) _ c TestKind.nodup_all fun p _ =>
    TestKind.mem_all p.test.kind

/-- Predicates of one kind are arranged by their fields. -/
theorem arranged_of_kind {c : Clause} {kind : TestKind} (h : ∀ p ∈ c, p.test.kind = kind) :
    c.arranged = c.byField := by
  have hsame : c.ofKind kind = c := by
    rw [ofKind, List.filter_eq_self]
    exact fun p hp => beq_iff_eq.mpr (h p hp)
  have hother (other : TestKind) (hne : other ≠ kind) : (c.ofKind other).byField = [] := by
    have hnone : c.ofKind other = [] := by
      rw [ofKind, List.filter_eq_nil_iff]
      exact fun p hp hkind => hne ((beq_iff_eq.mp hkind).symm.trans (h p hp))
    rw [hnone]
    rfl
  obtain ⟨before, after, hsplit⟩ := List.append_of_mem kind.mem_all
  have hnodup := hsplit ▸ TestKind.nodup_all
  have hbefore : (before.flatMap fun other => (c.ofKind other).byField) = [] := by
    rw [List.flatMap_eq_nil_iff]
    exact fun other hmem => hother other ((List.nodup_append.mp hnodup).2.2 other hmem kind (by simp))
  have hafter : (after.flatMap fun other => (c.ofKind other).byField) = [] := by
    rw [List.flatMap_eq_nil_iff]
    intro other hmem
    refine hother other fun hkind => ?_
    exact (List.nodup_cons.mp (List.nodup_append.mp hnodup).2.1).1 (hkind ▸ hmem)
  rw [arranged, hsplit, List.flatMap_append, List.flatMap_cons, hbefore, hafter, hsame, List.nil_append,
    List.append_nil]

theorem kind_of_mem_byField {c : Clause} {kind : TestKind} {p : Predicate}
    (h : p ∈ (c.ofKind kind).byField) : p.test.kind = kind := by
  have hp := (byField_perm _).mem_iff.mp h
  simpa [ofKind] using (List.mem_filter.mp hp).2

/-- Arranged predicates stand in the order of their kinds. -/
theorem pairwise_arranged (c : Clause) :
    c.arranged.Pairwise fun p q => p.test.kind.rank ≤ q.test.kind.rank := by
  refine List.pairwise_flatMap.mpr ⟨?_, ?_⟩
  · intro kind _
    refine List.pairwise_of_forall_mem_list ?_
    intro p hp q hq
    exact Nat.le_of_eq (by rw [kind_of_mem_byField hp, kind_of_mem_byField hq])
  · refine TestKind.pairwise_rank.imp ?_
    intro k l hkl p hp q hq
    rw [kind_of_mem_byField hp, kind_of_mem_byField hq]
    exact hkl

end Clause

end EntityStore

import EntityStore.Proofs.Sorting.Arranged
import EntityStore.Proofs.Sorting.Interleaving
import EntityStore.Proofs.Sorting.Runs
import Mathlib.Data.List.Chain

namespace EntityStore.Sorting

variable {α κ : Type} [LinearOrder κ] {less : α → α → Bool} {key : α → κ}

/-- An element is inserted where a plain merge would put it. -/
theorem toList_insert {xs : Array α} {x : α} (h : Graded (fun y => stays less y x) xs.toList) :
    (insert less xs x).toList = xs.toList.merge [x] (stays less) := by
  unfold insert
  extract_lets n
  have hdivides : Divides (fun y => stays less y x) xs xs.size n :=
    divides_halved h (Nat.le_refl _) (by omega) (Nat.zero_le _) (Nat.le_refl _) (fun _ _ hi => by omega)
      (fun _ _ hi hn => by omega)
  have hfront : (xs.toList.take n ++ xs.toList.drop n).merge [x] (stays less) =
      xs.toList.take n ++ (xs.toList.drop n).merge [x] (stays less) :=
    merge_append_left fun y hy => hdivides.front_of_mem hy
  have hbehind : ([] ++ xs.toList.drop n).merge [x] (stays less) = [].merge [x] (stays less) ++ xs.toList.drop n := by
    apply merge_append_left_end
    intro y hy x' hx'
    rw [List.mem_singleton.mp hx']
    apply hdivides.behind_of_mem
    rwa [take_size]
  rw [List.nil_append, List.nil_merge] at hbehind
  rw [List.take_append_drop, hbehind] at hfront
  rw [hfront, Array.toList_append, Array.toList_append, toList_stretch, toList_stretch_size]
  simp

/-- Whether the elements of a list are compared by their keys. -/
def ComparesBy (less : α → α → Bool) (key : α → κ) (xs : List α) : Prop :=
  ∀ x ∈ xs, ∀ y ∈ xs, less x y = true ↔ key x < key y

namespace ComparesBy

variable {xs as bs : List α} (h : ComparesBy less key xs)
include h

theorem stays_eq {x y : α} (hx : x ∈ xs) (hy : y ∈ xs) : stays less x y = keyLe key x y := by
  rw [Bool.eq_iff_iff]
  simp only [stays, keyLe, Bool.not_eq_true', decide_eq_true_eq]
  rw [← not_lt, ← h y hy x hx, Bool.not_eq_true]

theorem compatible (has : as ⊆ xs) (hbs : bs ⊆ xs) (ha : as.Pairwise fun x y => key x ≤ key y)
    (hb : bs.Pairwise fun x y => key x ≤ key y) : Compatible less as bs := by
  constructor
  · intro y hy
    apply ha.imp_of_mem
    intro x x' hx hx' hle hstays
    simp only [h.stays_eq (has hx') (hbs hy), h.stays_eq (has hx) (hbs hy), keyLe, decide_eq_true_eq] at hstays ⊢
    exact hle.trans hstays
  · intro x hx
    apply hb.imp_of_mem
    intro y y' hy hy' hle hless
    rw [h y' (hbs hy') x (has hx)] at hless
    rw [h y (hbs hy) x (has hx)]
    exact lt_of_le_of_lt hle hless

theorem merge_eq (has : as ⊆ xs) (hbs : bs ⊆ xs) : as.merge bs (stays less) = as.merge bs (keyLe key) := by
  have hmerge : (as.merge bs (stays less)).map id = (as.map id).merge (bs.map id) (keyLe key) :=
    List.map_merge fun x hx y hy => h.stays_eq (has hx) (hbs hy)
  simpa using hmerge

/-- The sort of the library arranges a list by what the comparisons tell. -/
theorem arranges_mergeSort : Arranges (· ≤ ·) key xs (xs.mergeSort (stays less)) := by
  have hsort : (xs.mergeSort (stays less)).map id = (xs.map id).mergeSort (keyLe key) :=
    List.map_mergeSort fun x hx y hy => h.stays_eq hx hy
  rw [List.map_id, List.map_id] at hsort
  rw [hsort]
  exact Sorting.arranges_mergeSort key xs

variable {ps qs : List α} {a b : Array α}

/-- Merging two runs arranges the elements of the first with those of the second behind them. -/
theorem arranges_merge (hmem : ps ++ qs ⊆ xs) (ha : Arranges (· ≤ ·) key ps a.toList)
    (hb : Arranges (· ≤ ·) key qs b.toList) (patience : Nat) :
    Arranges (· ≤ ·) key (ps ++ qs) (merge less a b patience).1.toList := by
  obtain ⟨hps, hqs⟩ := List.append_subset.mp hmem
  have has : a.toList ⊆ xs := fun x hx => hps (ha.perm.mem_iff.mp hx)
  have hbs : b.toList ⊆ xs := fun x hx => hqs (hb.perm.mem_iff.mp hx)
  rw [toList_merge less (h.compatible has hbs ha.ordered hb.ordered), h.merge_eq has hbs]
  exact ha.merge hb

theorem arranges_insert {x : α} (hmem : ps ++ [x] ⊆ xs) (ha : Arranges (· ≤ ·) key ps a.toList) :
    Arranges (· ≤ ·) key (ps ++ [x]) (insert less a x).toList := by
  obtain ⟨hps, hx⟩ := List.append_subset.mp hmem
  have has : a.toList ⊆ xs := fun y hy => hps (ha.perm.mem_iff.mp hy)
  have hone : [x].Pairwise fun x y => key x ≤ key y := List.pairwise_singleton _ _
  have hcompatible := h.compatible has hx ha.ordered hone
  rw [toList_insert (hcompatible.first x List.mem_cons_self), h.merge_eq has hx]
  exact ha.merge (Arranges.refl hone)

/-- Filling up a run arranges its elements with the others behind them. -/
theorem arranges_foldl_insert (hmem : ps ++ qs ⊆ xs) (ha : Arranges (· ≤ ·) key ps a.toList) :
    Arranges (· ≤ ·) key (ps ++ qs) (qs.foldl (insert less) a).toList := by
  induction qs generalizing ps a with
  | nil => simpa using ha
  | cons q qs ih =>
    rw [List.append_cons] at hmem ⊢
    exact ih hmem (h.arranges_insert (List.append_subset.mp hmem).1 ha)

/-- The run that a list begins with is arranged, since one that falls has no two elements with equal keys. -/
theorem arranges_firstRun {part run : List α} (hmem : part ⊆ xs)
    (hrun : (part.IsChain (fun x y => less y x = false) ∧ run = part) ∨
      (part.IsChain (fun x y => less y x = true) ∧ run = part.reverse)) : Arranges (· ≤ ·) key part run := by
  rcases hrun with ⟨hrises, rfl⟩ | ⟨hfalls, rfl⟩
  · have hkeys : (run.map key).IsChain (· ≤ ·) := by
      apply (List.isChain_map key).mpr
      apply hrises.imp_of_mem_imp
      intro x y hx hy hless
      rw [← not_lt, ← h y (hmem hy) x (hmem hx), hless]
      exact Bool.false_ne_true
    exact Arranges.refl (List.pairwise_map.mp hkeys.pairwise)
  · have hkeys : (part.map key).IsChain (· > ·) := by
      apply (List.isChain_map key).mpr
      apply hfalls.imp_of_mem_imp
      intro x y hx hy hless
      exact (h y (hmem hy) x (hmem hx)).mp hless
    exact Arranges.of_falling (List.pairwise_map.mp hkeys.pairwise)

end ComparesBy

/-- Whether runs, the last one first, arrange the parts of a list one behind the other, where the parts hold
elements that are compared by their keys. -/
inductive Covers (key : α → κ) (xs : List α) : List α → List (Run α) → Prop
  | nil : Covers key xs [] []
  | cons {done part : List α} {runs : List (Run α)} {run : Run α} (hruns : Covers key xs done runs)
      (hpart : part ≠ []) (hrun : part ⊆ xs → Arranges (· ≤ ·) key part run.items.toList) :
      Covers key xs (done ++ part) (run :: runs)

theorem Covers.eq_nil {xs done : List α} (h : Covers key xs done []) : done = [] := by
  cases h
  rfl

theorem Covers.arranges {xs done : List α} {run : Run α} (h : Covers key xs done [run]) (hmem : done ⊆ xs) :
    Arranges (· ≤ ·) key done run.items.toList := by
  cases h with
  | cons hruns _ hrun =>
    cases hruns
    exact hrun hmem

namespace ComparesBy

variable {xs : List α} (h : ComparesBy less key xs)
include h

theorem maintained_covers : Maintained less (Covers key xs) where
  none := .nil
  added := by
    intro least ys hys
    obtain ⟨part, hpart, hsplit, hrun⟩ := firstRun_spec less hys
    let filler := (firstRun less ys).2.take (least - (firstRun less ys).1.length)
    refine ⟨part ++ filler, by simp [hpart], ?_, fun hruns start => .cons hruns (by simp [hpart]) fun hmem => ?_⟩
    · rw [List.append_assoc, afterRun, List.take_append_drop]
      exact hsplit
    · have hfirst := h.arranges_firstRun (List.append_subset.mp hmem).1 hrun
      exact h.arranges_foldl_insert hmem hfirst
  late := by
    intro done last runs hruns lateness
    cases hruns with
    | cons hruns hpart hrun => exact .cons hruns hpart hrun
  joined := by
    intro front done first second runs hruns patience
    induction front generalizing done with
    | nil =>
      cases hruns with
      | cons hruns hpart hsecond =>
        cases hruns with
        | cons hruns hpart' hfirst =>
          rw [List.append_assoc]
          refine .cons hruns (by simp [hpart]) fun hmem => ?_
          obtain ⟨hps, hqs⟩ := List.append_subset.mp hmem
          exact h.arranges_merge hmem (hfirst hps) (hsecond hqs) patience
    | cons last front ih =>
      cases hruns with
      | cons hruns hpart hrun => exact .cons (ih hruns) hpart hrun
  few := by
    intro done runs hruns
    induction hruns with
    | nil => exact Nat.le_refl 0
    | cons _ hpart _ ih =>
      have hsome := List.length_pos_iff.mpr hpart
      rw [List.length_cons, List.length_append]
      omega

/-- Sorting by runs arranges the list stably. -/
theorem arranges_sort : Arranges (· ≤ ·) key xs (sort less xs) := by
  rcases h.maintained_covers.sort xs with ⟨hnone, hsort⟩ | ⟨run, hrun, hsort⟩
  · rw [hsort, hnone.eq_nil]
    exact Arranges.refl .nil
  · rw [hsort]
    exact hrun.arranges (List.Subset.refl xs)

end ComparesBy

end EntityStore.Sorting

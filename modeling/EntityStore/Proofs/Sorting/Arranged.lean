import Mathlib.Data.List.Basic
import Mathlib.Order.Lattice

namespace EntityStore.Sorting

variable {α κ : Type} [LinearOrder κ] {key : α → κ} {rel : κ → κ → Prop} {xs ys zs : List α}

/-- Elements that are told apart by their keys are in order in one way only. -/
theorem eq_of_ordered_of_perm (h : xs.Pairwise fun x y => key x ≤ key y) (h' : ys.Pairwise fun x y => key x ≤ key y)
    (hperm : xs.Perm ys) (hkeys : ∀ x ∈ xs, ∀ y ∈ xs, key x = key y → x = y) : xs = ys := by
  apply List.Perm.eq_of_pairwise _ h h' hperm
  intro x y hx hy hxy hyx
  exact hkeys x hx y (hperm.mem_iff.mpr hy) (le_antisymm hxy hyx)

/-- A list that is in order by two keys holds no elements of which one comes first by one key, and the other one by
the other. -/
theorem not_lt_of_ordered {key' : α → κ} (h : xs.Pairwise fun x y => key x ≤ key y)
    (h' : xs.Pairwise fun x y => key' x ≤ key' y) {x y : α} (hx : x ∈ xs) (hy : y ∈ xs) (hlt : key x < key y) :
    ¬key' y < key' x := by
  intro hlt'
  obtain ⟨front, behind, rfl⟩ := List.append_of_mem hx
  obtain ⟨-, -, hfront⟩ := List.pairwise_append.mp h
  obtain ⟨-, hbehind, -⟩ := List.pairwise_append.mp h'
  rcases List.mem_append.mp hy with hy | hy
  · exact absurd hlt (not_lt_of_ge (hfront y hy x List.mem_cons_self))
  · rcases List.mem_cons.mp hy with rfl | hy
    · exact lt_irrefl _ hlt
    · exact absurd hlt' (not_lt_of_ge ((List.pairwise_cons.mp hbehind).1 y hy))

/-- Whether a list holds the elements of another one in the order of their keys, those with equal keys in the
order in which the other one holds them. -/
structure Arranges (rel : κ → κ → Prop) (key : α → κ) (xs ys : List α) : Prop where
  perm : ys.Perm xs
  ordered : ys.Pairwise fun x y => rel (key x) (key y)
  stable : ∀ k, (ys.filter fun x => key x = k) = xs.filter fun x => key x = k

namespace Arranges

theorem refl (h : xs.Pairwise fun x y => rel (key x) (key y)) : Arranges rel key xs xs :=
  ⟨.refl xs, h, fun _ => rfl⟩

/-- A list whose reversal is arranged in rising order is arranged in falling order. -/
theorem reverse (h : Arranges (· ≤ ·) key xs.reverse ys) : Arranges (· ≥ ·) key xs ys.reverse := by
  constructor
  · exact (List.reverse_perm ys).trans (h.perm.trans (List.reverse_perm xs))
  · exact List.pairwise_reverse.mpr h.ordered
  · intro k
    rw [List.filter_reverse, h.stable k, List.filter_reverse, List.reverse_reverse]

/-- A list that falls has no two elements with equal keys, so that its reversal arranges it. -/
theorem of_falling (h : xs.Pairwise fun x y => key y < key x) : Arranges (· ≤ ·) key xs xs.reverse := by
  constructor
  · exact List.reverse_perm xs
  · exact List.pairwise_reverse.mpr (h.imp le_of_lt)
  · intro k
    have halike : ∀ x ∈ xs.filter fun x => key x = k, key x = k := fun x hx => by simpa using (List.mem_filter.mp hx).2
    rw [List.filter_reverse]
    match hfilter : xs.filter fun x => key x = k with
    | [] => rfl
    | [_] => rfl
    | x :: y :: _ =>
      have hfalls := h.filter fun x => key x = k
      rw [hfilter] at halike hfalls
      have hless : key y < key x := (List.pairwise_cons.mp hfalls).1 y List.mem_cons_self
      rw [halike x (by simp), halike y (by simp)] at hless
      exact absurd hless (lt_irrefl k)

/-- What is arranged by a key is arranged by it in a list of what the elements stand for. -/
theorem map {β : Type} {key : β → κ} (f : α → β) (h : Arranges rel (fun x => key (f x)) xs ys) :
    Arranges rel key (xs.map f) (ys.map f) := by
  constructor
  · exact h.perm.map f
  · exact List.pairwise_map.mpr h.ordered
  · intro k
    have hstable := h.stable k
    rw [List.filter_map, List.filter_map]
    exact congrArg (List.map f) hstable

end Arranges

/-- Whether the key of an element is at most that of another. -/
def keyLe (key : α → κ) (x y : α) : Bool := decide (key x ≤ key y)

theorem keyLe_trans (x y z : α) (hxy : keyLe key x y = true) (hyz : keyLe key y z = true) : keyLe key x z = true := by
  simp only [keyLe, decide_eq_true_eq] at *
  exact le_trans hxy hyz

theorem keyLe_total (x y : α) : (keyLe key x y || keyLe key y x) = true := by
  simpa [keyLe] using le_total (key x) (key y)

/-- A merge takes elements of one key from the first list before those of the second. -/
theorem filter_merge (k : κ) (h : xs.Pairwise fun x y => key x ≤ key y) :
    ((xs.merge ys (keyLe key)).filter fun x => key x = k) =
      (xs.filter fun x => key x = k) ++ ys.filter fun x => key x = k := by
  induction xs generalizing ys with
  | nil => simp
  | cons x xs ih =>
    obtain ⟨hx, hxs⟩ := List.pairwise_cons.mp h
    induction ys with
    | nil => simp
    | cons y ys ihy =>
      rw [List.cons_merge_cons]
      split
      · simp only [List.filter_cons (x := x), ih hxs]
        split <;> rfl
      · next hlt =>
        have hlt : key y < key x := by simpa [keyLe] using hlt
        simp only [List.filter_cons (x := y), ihy]
        split
        · next hk =>
          -- The first list has no elements of this key, as all of them come behind `y`.
          have hnone : ((x :: xs).filter fun x => key x = k) = [] := by
            have hk : key y = k := by simpa using hk
            have hbehind : ∀ z ∈ x :: xs, key z ≠ k := by
              intro z hz
              rcases List.mem_cons.mp hz with rfl | hz
              · exact hk ▸ hlt.ne'
              · exact hk ▸ (lt_of_lt_of_le hlt (hx z hz)).ne'
            simpa [List.filter_eq_nil_iff] using hbehind
          rw [hnone]
          rfl
        · rfl

/-- Merging the arrangements of two lists arranges the first list with the second behind it. -/
theorem Arranges.merge {xs' ys' : List α} (h : Arranges (· ≤ ·) key xs ys) (h' : Arranges (· ≤ ·) key xs' ys') :
    Arranges (· ≤ ·) key (xs ++ xs') (ys.merge ys' (keyLe key)) := by
  constructor
  · exact (List.merge_perm_append (keyLe key)).trans (h.perm.append h'.perm)
  · have hys : ys.Pairwise fun x y => keyLe key x y = true := by simpa [keyLe] using h.ordered
    have hys' : ys'.Pairwise fun x y => keyLe key x y = true := by simpa [keyLe] using h'.ordered
    simpa [keyLe] using List.pairwise_merge keyLe_trans keyLe_total ys ys' hys hys'
  · intro k
    rw [filter_merge k h.ordered, h.stable k, h'.stable k, List.filter_append]

/-- The sort of the library arranges a list. -/
theorem arranges_mergeSort (key : α → κ) (xs : List α) : Arranges (· ≤ ·) key xs (xs.mergeSort (keyLe key)) := by
  have hperm := List.mergeSort_perm xs (keyLe key)
  constructor
  · exact hperm
  · simpa [keyLe] using List.pairwise_mergeSort keyLe_trans keyLe_total xs
  · intro k
    -- The elements of one key are a list in order, and such lists are kept in any order of the others.
    have halike : (xs.filter fun x => key x = k).Pairwise fun x y => keyLe key x y = true := by
      apply List.pairwise_of_forall_mem_list
      intro x hx y hy
      have hxk : key x = k := by simpa using (List.mem_filter.mp hx).2
      have hyk : key y = k := by simpa using (List.mem_filter.mp hy).2
      simp [keyLe, hxk, hyk]
    have hkept := (List.sublist_mergeSort keyLe_trans keyLe_total halike List.filter_sublist).filter fun x => key x = k
    rw [List.filter_filter] at hkept
    simp only [Bool.and_self] at hkept
    exact (hkept.eq_of_length_le (Nat.le_of_eq (hperm.filter _).length_eq)).symm

end EntityStore.Sorting

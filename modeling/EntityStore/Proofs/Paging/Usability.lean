import EntityStore.Paging.PageRequest
import Mathlib.Algebra.Order.Ring.Int
import Mathlib.Data.List.Induction

namespace EntityStore.PageRequest

/-- What is done with a page request: another one is made of it, or one of its attributes is assigned to. -/
inductive Move where
  | next
  | previous
  | setNumber (number : Int)
  | setSize (size : Int)

def Move.apply (r : PageRequest) : Move → PageRequest
  | .next => r.next
  | .previous => r.previous
  | .setNumber number => r.setNumber number
  | .setSize size => r.setSize size

/-- What comes of a request that is made and then moved. -/
def after (r : PageRequest) (moves : List Move) : PageRequest := moves.foldl Move.apply r.withValidSize

/-- Whether a request can be asked for and counted with: it holds an element at least, begins nowhere before the first
one, and its size divides. -/
structure IsUsable (r : PageRequest) : Prop where
  size : 1 ≤ r.size
  limit : 1 ≤ r.limit
  offset : 0 ≤ r.offset
  pages : ∀ total, r.totalPages total ≠ .error .divisionByZero

/-- Whether a size is assigned after which the request only takes other numbers. -/
def EndsWithSize (moves : List Move) (size : Int) : Prop :=
  ∃ before numbers, moves = before ++ .setSize size :: List.map Move.setNumber numbers

variable {r : PageRequest} {moves : List Move} {size : Int}

theorem one_le_size_withValidSize (r : PageRequest) : 1 ≤ r.withValidSize.size := by
  change 1 ≤ atLeastOne r.size
  unfold atLeastOne
  split <;> omega

/-- There are no pages of no size, and of any other there is a count or it is too large. -/
theorem totalPages_eq_divisionByZero_iff (r : PageRequest) (total : Int) :
    r.totalPages total = .error .divisionByZero ↔ r.size = 0 := by
  rw [totalPages, Quotient.ceil]
  constructor
  · intro h
    by_contra hsize
    rw [if_neg hsize] at h
    split at h <;> exact nomatch h
  · intro hsize
    rw [if_pos hsize]

/-- The elements before a page are of a negative number if the size is, on any page but the first. -/
theorem offset_neg_iff (r : PageRequest) : r.offset < 0 ↔ r.size < 0 ∧ 1 < r.number := by
  rw [offset]
  constructor
  · intro h
    have hsize : r.size < 0 := by
      by_contra hsize
      have hbefore : 0 ≤ max (r.number - 1) 0 := le_max_right _ _
      have hoffset := mul_nonneg (Int.not_lt.mp hsize) hbefore
      omega
    refine ⟨hsize, ?_⟩
    by_contra hnumber
    have hbefore : max (r.number - 1) 0 = 0 := by omega
    rw [hbefore, mul_zero] at h
    exact absurd h (lt_irrefl 0)
  · rintro ⟨hsize, hnumber⟩
    exact mul_neg_of_neg_of_pos hsize (by omega)

/-- All that makes a request usable follows from its size. -/
theorem isUsable_iff (r : PageRequest) : r.IsUsable ↔ 1 ≤ r.size := by
  constructor
  · intro h
    exact h.size
  · intro hsize
    refine ⟨hsize, hsize, ?_, fun total htotal => ?_⟩
    · by_contra hoffset
      have hneg := (r.offset_neg_iff.mp (Int.not_le.mp hoffset)).1
      omega
    · have hzero := (r.totalPages_eq_divisionByZero_iff total).mp htotal
      omega

theorem isUsable_withValidSize (r : PageRequest) : r.withValidSize.IsUsable :=
  (isUsable_iff _).mpr r.one_le_size_withValidSize

/-- A size is assigned last if it is assigned now, or if it was before and only a number is assigned now. -/
theorem endsWithSize_concat {m : Move} : EndsWithSize (moves ++ [m]) size ↔
    m = .setSize size ∨ ((∃ number, m = .setNumber number) ∧ EndsWithSize moves size) := by
  constructor
  · rintro ⟨before, numbers, h⟩
    cases numbers using List.reverseRecOn with
    | nil => exact .inl (List.singleton_inj.mp (List.append_inj_right' h rfl))
    | append_singleton numbers number =>
      rw [List.map_append, List.map_singleton, ← List.cons_append, ← List.append_assoc] at h
      have hlast : m = .setNumber number := List.singleton_inj.mp (List.append_inj_right' h rfl)
      exact .inr ⟨⟨number, hlast⟩, before, numbers, List.append_inj_left' h rfl⟩
  · rintro (rfl | ⟨⟨number, rfl⟩, before, numbers, rfl⟩)
    · exact ⟨moves, [], rfl⟩
    · exact ⟨before, numbers ++ [number], by simp⟩

/-- What is known of the size of a request: it is the one that was assigned last, or it is at least one. -/
def KnowsSize (moves : List Move) (r : PageRequest) : Prop :=
  (∀ n, EndsWithSize moves n → r.size = n) ∧ ((∀ n, ¬EndsWithSize moves n) → 1 ≤ r.size)

theorem knowsSize_apply (h : KnowsSize moves r) (m : Move) : KnowsSize (moves ++ [m]) (m.apply r) := by
  simp only [KnowsSize, endsWithSize_concat]
  cases m with
  | next | previous => exact ⟨by simp, fun _ => one_le_size_withValidSize _⟩
  | setNumber number =>
    simp only [reduceCtorEq, false_or, Move.setNumber.injEq, exists_eq', true_and]
    exact h
  | setSize size =>
    refine ⟨?_, fun hnone => absurd (.inl rfl) (hnone size)⟩
    rintro n (hn | ⟨⟨number, hn⟩, -⟩)
    · exact Move.setSize.inj hn
    · exact nomatch hn

theorem knowsSize_after (r : PageRequest) (moves : List Move) : KnowsSize moves (r.after moves) := by
  induction moves using List.reverseRecOn with
  | nil => exact ⟨fun n ⟨before, numbers, h⟩ => by simp at h, fun _ => r.one_le_size_withValidSize⟩
  | append_singleton moves m ih =>
    rw [after, List.foldl_append]
    exact knowsSize_apply ih m

/-- A size less than one can only come from an assignment. -/
theorem size_after_eq_iff {n : Int} (hn : n < 1) : (r.after moves).size = n ↔ EndsWithSize moves n := by
  obtain ⟨hassigned, hclamped⟩ := r.knowsSize_after moves
  constructor
  · intro hsize
    by_contra hnot
    have hnone : ∀ k, ¬EndsWithSize moves k := fun k hk => hnot (hsize ▸ hassigned k hk ▸ hk)
    have hone := hclamped hnone
    omega
  · exact hassigned n

/-- Going back from the next page leads to the page itself, or to the first page if it comes before it. -/
theorem number_previous_next (r : PageRequest) : r.next.previous.number = max r.number 1 := by
  change max (r.number + 1 - 1) 1 = _
  rw [Int.add_sub_cancel]

/-- A request that was made with any number and size and moved in any way can be used, unless a size less than one was
assigned to it last; then it has that size. The requests for the next and for the previous page can be used in any
case. -/
theorem isUsable_after_iff (r : PageRequest) (moves : List Move) :
    ((r.after moves).IsUsable ↔ ∀ size, EndsWithSize moves size → 1 ≤ size) ∧
      (∀ size < 1, (r.after moves).size = size ↔ EndsWithSize moves size) ∧
      (∀ total, (r.after moves).totalPages total = .error .divisionByZero ↔ EndsWithSize moves 0) ∧
      ((r.after moves).offset < 0 ↔ (∃ size < 0, EndsWithSize moves size) ∧ 1 < (r.after moves).number) ∧
      (r.after moves).next.IsUsable ∧ (r.after moves).previous.IsUsable ∧ 1 ≤ (r.after moves).previous.number ∧
      ((r.after moves).next.previous.number = (r.after moves).number ↔ 1 ≤ (r.after moves).number) := by
  refine ⟨?_, fun size => size_after_eq_iff, fun total => ?_, ?_, isUsable_withValidSize _, isUsable_withValidSize _,
    le_max_right _ _, ?_⟩
  · rw [isUsable_iff]
    constructor
    · intro hsize size hends
      rwa [← (r.knowsSize_after moves).1 size hends]
    · intro hall
      by_contra hsize
      exact hsize (hall _ ((size_after_eq_iff (Int.not_le.mp hsize)).mp rfl))
  · rw [totalPages_eq_divisionByZero_iff, size_after_eq_iff Int.zero_lt_one]
  · rw [offset_neg_iff]
    apply and_congr_left'
    constructor
    · intro hneg
      exact ⟨_, hneg, (size_after_eq_iff (by omega)).mp rfl⟩
    · rintro ⟨size, hneg, hends⟩
      rwa [(size_after_eq_iff (by omega)).mpr hends]
  · rw [number_previous_next, max_eq_left_iff]

end EntityStore.PageRequest

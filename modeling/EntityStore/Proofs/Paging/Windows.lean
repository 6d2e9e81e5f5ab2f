import EntityStore.Proofs.Number.Quotient
import EntityStore.Proofs.Query.Naming
import EntityStore.Proofs.Value.Spelling
import EntityStore.Repository.Reading
import Mathlib.Data.List.Basic

namespace EntityStore

variable {β : Type}

namespace PageRequest

/-- How many elements a page of a request holds at most, once its size is raised to one if need be. -/
def pageSize (p : PageRequest) : Nat := (atLeastOne p.size).toNat

variable (p : PageRequest)

theorem one_le_atLeastOne (size : Int) : 1 ≤ atLeastOne size := by
  unfold atLeastOne
  split <;> omega

theorem natCast_pageSize : (p.pageSize : Int) = atLeastOne p.size := by
  have hsize := one_le_atLeastOne p.size
  exact Int.toNat_of_nonneg (by omega)

theorem pageSize_pos : 0 < p.pageSize := by
  have hsize := one_le_atLeastOne p.size
  have hcast := p.natCast_pageSize
  omega

theorem next_withNumber (k : Int) : (p.withNumber k).next = p.withNumber (k + 1) := by
  have hagain : atLeastOne (atLeastOne p.size) = atLeastOne p.size := by
    have hsize := one_le_atLeastOne p.size
    rw [atLeastOne, if_neg (by omega)]
  simp only [next, withNumber, withValidSize, hagain]

theorem limit_withNumber (k : Int) : (p.withNumber k).limit = p.pageSize :=
  p.natCast_pageSize.symm

theorem offset_withNumber {k : Nat} (hk : 1 ≤ k) : (p.withNumber k).offset = ((k - 1) * p.pageSize : Nat) := by
  have hbefore : max ((k : Int) - 1) 0 = ((k - 1 : Nat) : Int) := by omega
  change atLeastOne p.size * max ((k : Int) - 1) 0 = _
  rw [hbefore, ← p.natCast_pageSize, Int.natCast_mul, Int.mul_comm]

/-- Places that are not negative are places from the front. -/
theorem slice_natCast (first last : Nat) (xs : List β) :
    Repository.slice (first : Int) last xs = (xs.take last).drop first := by
  have hbound (n : Nat) : Repository.boundOf xs.length (n : Int) = n := by
    rw [Repository.boundOf, if_neg (by omega), Int.toNat_natCast]
  rw [Repository.slice, hbound, hbound]

theorem slice_map {γ : Type} (f : β → γ) (first last : Int) (xs : List β) :
    Repository.slice first last (xs.map f) = (Repository.slice first last xs).map f := by
  simp only [Repository.slice, List.length_map, List.map_drop, List.map_take]

theorem window_eq_take {q : PageRequest} {first size : Nat} (hoffset : q.offset = first) (hlimit : q.limit = size)
    (xs : List β) : Repository.window q xs = (xs.drop first).take size := by
  rw [Repository.window, hoffset, hlimit, ← Int.natCast_add, slice_natCast, List.drop_take, Nat.add_sub_cancel_left]

theorem window_withNumber (xs : List β) {k : Nat} (hk : 1 ≤ k) :
    Repository.window (p.withNumber k) xs = (xs.drop ((k - 1) * p.pageSize)).take p.pageSize :=
  window_eq_take (p.offset_withNumber hk) (p.limit_withNumber k) xs

/-- Whether so many pages are those that a number of elements fills. -/
def Fills (total pages : Nat) : Prop := ∀ k, 1 ≤ k → (k < pages ↔ k * p.pageSize < total)

theorem exists_fills {total : Nat} (h : total < 2 ^ 53) :
    ∃ pages : Nat, p.Fills total pages ∧ ∀ k : Int, (p.withNumber k).pagesFor (.int total) = .ok (pages : Int) := by
  obtain ⟨pages, hpages, hfills⟩ := Quotient.exists_ceil h (one_le_atLeastOne p.size)
  exact ⟨pages, hfills, fun _ => hpages⟩

/-- One of the pages that some elements fill. -/
def pageOf (xs : List β) (pages k : Nat) : Page β :=
  Page.requested (Repository.window (p.withNumber k) xs) (.int xs.length) pages (p.withNumber k)

theorem hasNext_pageOf (xs : List β) (pages k : Nat) : (p.pageOf xs pages k).hasNext = decide (k < pages) := by
  simp [pageOf, Page.requested, Page.hasNext, withNumber, withValidSize]

variable {p}

namespace Fills

variable {total pages : Nat}

/-- The number of pages is the quotient, rounded up, but no less than one. -/
theorem max_eq (h : p.Fills total pages) : max 1 pages = max 1 ((total + (p.pageSize - 1)) / p.pageSize) := by
  have hsize := p.pageSize_pos
  have hquotient (k : Nat) : k < (total + (p.pageSize - 1)) / p.pageSize ↔ k * p.pageSize < total := by
    rw [Nat.lt_iff_add_one_le, Nat.le_div_iff_mul_le hsize, Nat.add_mul]
    omega
  have hsame (k : Nat) (hk : 1 ≤ k) : k < pages ↔ k < (total + (p.pageSize - 1)) / p.pageSize :=
    (h k hk).trans (hquotient k).symm
  apply Nat.le_antisymm
  · by_contra hless
    have hk := (hsame (max 1 ((total + (p.pageSize - 1)) / p.pageSize)) (Nat.le_max_left _ _)).mp (by omega)
    omega
  · by_contra hless
    have hk := (hsame (max 1 pages) (Nat.le_max_left _ _)).mpr (by omega)
    omega

/-- The place at which a page begins can be shown, however many digits the size has. -/
theorem shown_offset (h : p.Fills total pages) (htotal : total < 2 ^ 53) {k : Nat} (hk : 1 ≤ k)
    (hvisited : k = 1 ∨ k ≤ pages) :
    IntegerText.shown (p.withNumber k).offset = .ok (toString ((k - 1) * p.pageSize)) := by
  have hfew : 2 ^ 53 ≤ 10 ^ IntegerText.mostDigits := by
    calc 2 ^ 53 ≤ 10 ^ 16 := by decide
      _ ≤ 10 ^ IntegerText.mostDigits := Nat.pow_le_pow_right (by decide) (by decide)
  have hbefore : (k - 1) * p.pageSize < 2 ^ 53 := by
    rcases Nat.lt_or_ge 1 k with hlater | hfirst
    · have hless := (h (k - 1) (by omega)).mp (by omega)
      omega
    · have hzero : k - 1 = 0 := by omega
      rw [hzero, Nat.zero_mul]
      decide
  rw [p.offset_withNumber hk, IntegerText.shown_natCast, if_pos (Nat.lt_of_lt_of_le hbefore hfew)]

end Fills

/-- Whether the size of pages has no more digits than can be put into a record, which counts where entities are
asked for. -/
def IsTold (p : PageRequest) : Prop :=
  Selection.namesOf p.distinct = [] → p.pageSize < 10 ^ IntegerText.mostDigits

end PageRequest

/-- Windows that follow each other are one window that is as wide as all of them. -/
theorem flatMap_windows (xs : List β) (size i n : Nat) :
    ((List.range' (i + 1) n).flatMap fun k => (xs.drop ((k - 1) * size)).take size) =
      (xs.drop (i * size)).take (n * size) := by
  induction n generalizing i with
  | zero => simp
  | succ n ih =>
    have hwide : (n + 1) * size = size + n * size := by rw [Nat.succ_mul, Nat.add_comm]
    have hnext : (i + 1) * size = i * size + size := Nat.succ_mul i size
    rw [List.range'_succ, List.flatMap_cons, ih, hwide, hnext, List.take_add, List.drop_drop, Nat.add_sub_cancel]

/-- Whether pages hold some elements, in a row and as many on each page as a size says, are as many as there have
to be, and tell how many elements there are and which page is the last. -/
structure Covers (xs : List β) (size : Nat) (pages : List (Page β)) : Prop where
  contents : pages.flatMap (·.content) = xs
  length : pages.length = max 1 ((xs.length + (size - 1)) / size)
  totals : ∀ page ∈ pages, page.total = .int xs.length
  last : ∃ before page, pages = before ++ [page] ∧ page.isLast = true ∧ ∀ other ∈ before, other.isLast = false

/-- The pages that a list fills cover it. -/
theorem PageRequest.Fills.covers {p : PageRequest} {xs : List β} {pages : Nat} (h : p.Fills xs.length pages) :
    Covers xs p.pageSize ((List.range' 1 (max 1 pages)).map (p.pageOf xs pages)) := by
  have hvisited (k : Nat) (hk : k ∈ List.range' 1 (max 1 pages)) : 1 ≤ k := (List.mem_range'_1.mp hk).1
  constructor
  · have hall : xs.length ≤ max 1 pages * p.pageSize := by
      have hend := h (max 1 pages) (Nat.le_max_left 1 pages)
      omega
    calc ((List.range' 1 (max 1 pages)).map (p.pageOf xs pages)).flatMap (·.content)
        = (List.range' 1 (max 1 pages)).flatMap fun k => (xs.drop ((k - 1) * p.pageSize)).take p.pageSize := by
          rw [List.flatMap_map]
          exact List.flatMap_congr fun k hk => p.window_withNumber xs (hvisited k hk)
      _ = (xs.drop (0 * p.pageSize)).take (max 1 pages * p.pageSize) := flatMap_windows xs p.pageSize 0 _
      _ = xs := by rw [Nat.zero_mul, List.drop_zero, List.take_of_length_le hall]
  · rw [List.length_map, List.length_range', h.max_eq]
  · intro page hpage
    obtain ⟨k, _, rfl⟩ := List.mem_map.mp hpage
    rfl
  · obtain ⟨n, hn⟩ : ∃ n, max 1 pages = n + 1 := ⟨max 1 pages - 1, by omega⟩
    refine ⟨(List.range' 1 n).map (p.pageOf xs pages), p.pageOf xs pages (1 + n), ?_, ?_, ?_⟩
    · rw [hn, List.range'_1_concat, List.map_append, List.map_singleton]
    · rw [Page.isLast, hasNext_pageOf, decide_eq_false (by omega)]
      rfl
    · intro other hother
      obtain ⟨k, hk, rfl⟩ := List.mem_map.mp hother
      obtain ⟨_, hless⟩ := List.mem_range'_1.mp hk
      rw [Page.isLast, hasNext_pageOf, decide_eq_true (by omega)]
      rfl

end EntityStore

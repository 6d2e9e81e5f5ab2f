import EntityStore.Proofs.Sorting.Merge

namespace EntityStore.Sorting

variable {α : Type} {before : α → Bool} {xs : Array α} {n : Nat}

/-- Whether the elements for which a test holds stand in front of the others. -/
def Graded (before : α → Bool) (xs : List α) : Prop :=
  xs.Pairwise fun x y => before y = true → before x = true

theorem Graded.before_of_le (h : Graded before xs.toList) {i j : Nat} {x y : α} (hij : i ≤ j) (hx : xs[i]? = some x)
    (hy : xs[j]? = some y) (hbefore : before y = true) : before x = true := by
  obtain ⟨hi, rfl⟩ := Array.getElem?_eq_some_iff.mp hx
  obtain ⟨hj, rfl⟩ := Array.getElem?_eq_some_iff.mp hy
  rcases Nat.eq_or_lt_of_le hij with rfl | hlt
  · exact hbefore
  · exact List.pairwise_iff_getElem.mp h i j hi hj hlt hbefore

/-- Whether a test holds for all elements in front of a place, and for none of the others among the first `n`. -/
structure Divides (before : α → Bool) (xs : Array α) (n place : Nat) : Prop where
  le : place ≤ n
  front : ∀ i y, i < place → xs[i]? = some y → before y = true
  behind : ∀ i y, place ≤ i → i < n → xs[i]? = some y → before y = false

theorem Divides.front_of_mem {place : Nat} (h : Divides before xs n place) {y : α} (hy : y ∈ xs.toList.take place) :
    before y = true := by
  obtain ⟨i, hi, rfl⟩ := List.mem_take_iff_getElem.mp hy
  have hsize : i < xs.size := by
    rw [Array.length_toList] at hi
    omega
  exact h.front i _ (by omega) (Array.getElem?_eq_getElem hsize)

theorem Divides.behind_of_mem {place : Nat} (h : Divides before xs n place) {y : α}
    (hy : y ∈ (xs.toList.take n).drop place) : before y = false := by
  obtain ⟨i, hi, rfl⟩ := List.mem_drop_iff_getElem.mp hy
  rw [List.length_take, Array.length_toList] at hi
  have hsize : place + i < xs.size := by omega
  rw [List.getElem_take]
  exact h.behind (place + i) _ (by omega) (by omega) (Array.getElem?_eq_getElem hsize)

/-- What is known of the place at any time: it is not in front of `low` and not behind `high`. -/
theorem divides_halved (hgraded : Graded before xs.toList) (hn : n ≤ xs.size) {steps low high : Nat}
    (hsteps : high ≤ low + steps) (hle : low ≤ high) (hhigh : high ≤ n)
    (hfront : ∀ i y, i < low → xs[i]? = some y → before y = true)
    (hbehind : ∀ i y, high ≤ i → i < n → xs[i]? = some y → before y = false) :
    Divides before xs n (halved before xs steps low high) := by
  fun_induction halved before xs steps low high with
  | case1 low high =>
    obtain rfl : low = high := by omega
    exact ⟨hhigh, hfront, hbehind⟩
  | case2 steps low high hlt middle hnone =>
    have houtside := Array.getElem?_eq_none_iff.mp hnone
    omega
  | case3 steps low high hlt middle y hy hbefore ih =>
    apply ih (by omega) (by omega) hhigh _ hbehind
    intro i x hi hx
    exact hgraded.before_of_le (Nat.le_of_lt_succ hi) hx hy hbefore
  | case4 steps low high hlt middle y hy hbefore ih =>
    apply ih (by omega) (by omega) (by omega) hfront
    intro i x hi _ hx
    apply Bool.eq_false_iff.mpr
    intro hx'
    exact hbefore (hgraded.before_of_le hi hy hx hx')
  | case5 steps low high hlt =>
    obtain rfl : low = high := by omega
    exact ⟨hhigh, hfront, hbehind⟩

/-- Steps are doubled until the limit is reached or a test fails; the last but one passed it, unless it is the one
that was given. -/
theorem doubled_spec (test : Nat → Bool) {limit fuel last step : Nat} (hfuel : limit ≤ step + fuel)
    (hlt : last < step) (hlimit : last < limit) :
    ((doubled test limit fuel last step).1 = last ∨ test (doubled test limit fuel last step).1 = true) ∧
      ((doubled test limit fuel last step).2 = limit ∨ test (doubled test limit fuel last step).2 = false) ∧
      (doubled test limit fuel last step).1 < (doubled test limit fuel last step).2 := by
  fun_induction doubled test limit fuel last step with
  | case1 last step =>
    refine ⟨.inl rfl, .inl ?_, ?_⟩ <;> dsimp only <;> omega
  | case2 fuel last step hagain ih =>
    obtain ⟨hstep, htest⟩ := (Bool.and_eq_true _ _).mp hagain
    have hstep := of_decide_eq_true hstep
    obtain ⟨hlast, hnext, hless⟩ := ih (by omega) (by omega) hstep
    refine ⟨.inr ?_, hnext, hless⟩
    rcases hlast with hlast | hlast
    · rw [hlast]
      exact htest
    · exact hlast
  | case3 fuel last step hstop =>
    refine ⟨.inl rfl, ?_, ?_⟩ <;> dsimp only
    · by_cases hstep : step < limit
      · rw [Nat.min_eq_left (Nat.le_of_lt hstep)]
        exact .inr (by simpa [hstep] using hstop)
      · exact .inl (by omega)
    · omega

/-- The place that is looked for is found, wherever the search begins. -/
theorem divides_gallop (hgraded : Graded before xs.toList) {hint : Nat} (hhint : hint < n) (hn : n ≤ xs.size) :
    Divides before xs n (gallop before xs n hint) := by
  unfold gallop
  extract_lets holdsAt
  have hholds {i : Nat} {y : α} (hy : xs[i]? = some y) : holdsAt i = before y := by simp [holdsAt, hy]
  have hsome {i : Nat} (hi : holdsAt i = true) : ∃ y, xs[i]? = some y ∧ before y = true := by
    cases hy : xs[i]? with
    | none => simp [holdsAt, hy] at hi
    | some y => exact ⟨y, rfl, (hholds hy).symm.trans hi⟩
  -- What holds at a place holds at all places in front of it.
  have hfront {i j : Nat} {x : α} (hj : holdsAt j = true) (hij : i ≤ j) (hx : xs[i]? = some x) : before x = true := by
    obtain ⟨y, hy, hbefore⟩ := hsome hj
    exact hgraded.before_of_le hij hx hy hbefore
  have hbehind {i j : Nat} {y : α} (hi : holdsAt i = false) (hij : i ≤ j) (hy : xs[j]? = some y) :
      before y = false := by
    apply Bool.eq_false_iff.mpr
    intro hbefore
    obtain ⟨hj, -⟩ := Array.getElem?_eq_some_iff.mp hy
    have hx := Array.getElem?_eq_getElem (Nat.lt_of_le_of_lt hij hj)
    rw [hholds hx] at hi
    exact absurd (hgraded.before_of_le hij hx hy hbefore) (by simp [hi])
  split
  · next hhere =>
    have hlimit : 0 < n - hint := by omega
    have hfuel : n - hint ≤ 1 + n := by omega
    have hspec := doubled_spec (fun k => holdsAt (hint + k)) hfuel Nat.one_pos hlimit
    have hinside := (doubled_le (fun k => holdsAt (hint + k)) (n - hint) n 0 1).2
    generalize doubled _ _ _ _ _ = reached at hspec hinside ⊢
    obtain ⟨last, step⟩ := reached
    obtain ⟨hlast, hstep, hless⟩ := hspec
    dsimp only at hlast hstep hless hinside ⊢
    apply divides_halved hgraded hn (by omega) (by omega) (by omega)
    · intro i x hi hx
      rcases hlast with rfl | hlast
      · exact hfront hhere (by omega) hx
      · exact hfront hlast (by omega) hx
    · intro i y hi hin hy
      rcases hstep with rfl | hstep
      · omega
      · exact hbehind hstep hi hy
  · next hhere =>
    have hfuel : hint + 1 ≤ 1 + n := by omega
    have hspec := doubled_spec (fun k => !holdsAt (hint - k)) hfuel Nat.one_pos (Nat.succ_pos hint)
    have hinside := (doubled_le (fun k => !holdsAt (hint - k)) (hint + 1) n 0 1).2
    generalize doubled _ _ _ _ _ = reached at hspec hinside ⊢
    obtain ⟨last, step⟩ := reached
    obtain ⟨hlast, hstep, hless⟩ := hspec
    dsimp only at hlast hstep hless hinside ⊢
    apply divides_halved hgraded hn (by omega) (by omega) (by omega)
    · intro i x hi hx
      rcases hstep with rfl | hstep
      · omega
      · have hstep : holdsAt (hint - step) = true := by simpa using hstep
        exact hfront hstep (by omega) hx
    · intro i y hi _ hy
      rcases hlast with rfl | hlast
      · exact hbehind (by simpa using hhere) hi hy
      · have hlast : holdsAt (hint - last) = false := by simpa using hlast
        exact hbehind hlast hi hy

end EntityStore.Sorting

import EntityStore.Sorting.Merge
import Mathlib.Algebra.Order.Group.Multiset
import Mathlib.Tactic.Abel

namespace EntityStore.Sorting

variable {α : Type}

theorem halved_le (before : α → Bool) (xs : Array α) (steps low high : Nat) :
    halved before xs steps low high ≤ max low high := by
  fun_induction halved before xs steps low high with
  | case1 | case2 | case5 => exact Nat.le_max_left _ _
  | case3 | case4 => omega

/-- Steps end within the limit, and the last but one is less, unless it is the one that was given. -/
theorem doubled_le (test : Nat → Bool) (limit fuel last step : Nat) :
    (doubled test limit fuel last step).1 ≤ max last (limit - 1) ∧
      (doubled test limit fuel last step).2 ≤ limit := by
  fun_induction doubled test limit fuel last step with
  | case1 | case3 => exact ⟨Nat.le_max_left _ _, Nat.min_le_right _ _⟩
  | case2 _ _ _ h ih =>
    have hlt := of_decide_eq_true (Bool.and_eq_true _ _ ▸ h).1
    exact ⟨by omega, ih.2⟩

theorem gallop_le (before : α → Bool) (xs : Array α) {n hint : Nat} (h : hint < n) :
    gallop before xs n hint ≤ n := by
  unfold gallop
  extract_lets holdsAt
  split
  · obtain ⟨hlast, hstep⟩ := doubled_le (fun k => holdsAt (hint + k)) (n - hint) n 0 1
    apply Nat.le_trans (halved_le before xs _ _ _)
    omega
  · apply Nat.le_trans (halved_le before xs _ _ _)
    omega

theorem gallop_last_le (before : α → Bool) (xs : Array α) {n : Nat} (h : 1 ≤ n) :
    gallop before xs n (n - 1) ≤ n :=
  gallop_le before xs (Nat.sub_lt h Nat.one_pos)

/-- The elements of an array, each as often as it occurs. -/
def bag (xs : Array α) : Multiset α := (xs.toList : Multiset α)

@[simp]
theorem bag_append (xs ys : Array α) : bag (xs ++ ys) = bag xs + bag ys := by
  simp [bag]

@[simp]
theorem bag_push (xs : Array α) (x : α) : bag (xs.push x) = bag xs + {x} := by
  simp [bag, ← Multiset.coe_add]

@[simp]
theorem bag_toArray (xs : List α) : bag xs.toArray = (xs : Multiset α) := rfl

@[simp]
theorem stretch_whole (xs : Array α) : stretch xs 0 xs.size = xs := Array.extract_size

theorem bag_stretch (xs : Array α) (i j : Nat) :
    bag (stretch xs i j) = ((xs.toList.drop i).take (j - i) : List α) := by
  simp [bag, stretch, List.extract_eq_take_drop]

theorem bag_stretch_add (xs : Array α) {i j k : Nat} (hij : i ≤ j) (hjk : j ≤ k) :
    bag (stretch xs i j) + bag (stretch xs j k) = bag (stretch xs i k) := by
  rw [← bag_append, stretch, stretch, Array.extract_append_extract, Nat.min_eq_left hij, Nat.max_eq_right hjk, stretch]

theorem bag_stretch_one {xs : Array α} {i : Nat} {x : α} (h : xs[i]? = some x) : bag (stretch xs i (i + 1)) = {x} := by
  obtain ⟨hi, rfl⟩ := Array.getElem?_eq_some_iff.mp h
  rw [bag_stretch, List.drop_eq_getElem_cons (by simpa using hi)]
  simp

/-- A place behind the end splits an array as well. -/
theorem bag_stretch_split (xs : Array α) (i : Nat) :
    bag (stretch xs 0 i) + bag (stretch xs i xs.size) = bag xs := by
  rcases Nat.le_total i xs.size with hle | hge
  · rw [bag_stretch_add xs (Nat.zero_le i) hle, stretch_whole]
  · rw [bag_stretch, bag_stretch]
    simp [List.take_of_length_le hge, Nat.sub_eq_zero_of_le hge, bag]

/-- A stretch at the front of what is left of a run, and what is left behind it. -/
theorem bag_stretch_rest (xs : Array α) (i m : Nat) :
    bag (stretch (stretch xs i xs.size) 0 m) + bag (stretch xs (i + m) xs.size) = bag (stretch xs i xs.size) := by
  have hrest : bag (stretch (stretch xs i xs.size) m (stretch xs i xs.size).size) =
      bag (stretch xs (i + m) xs.size) := by
    rw [bag_stretch, bag_stretch]
    simp [stretch, Nat.sub_sub, List.drop_take, List.take_take]
  rw [← hrest]
  exact bag_stretch_split _ m

variable (less : α → α → Bool) {a b : Array α}

namespace Front

/-- The elements that a merge from the front has taken, and those that it still has to take. -/
def bag (a b : Array α) (s : Front α) : Multiset α :=
  Sorting.bag s.taken + Sorting.bag (stretch a s.first a.size) + Sorting.bag (stretch b s.second b.size)

theorem bag_finished (s : Front α) : Sorting.bag (s.finished a b).1 = s.bag a b := by
  simp only [finished, bag, bag_append]

theorem bag_lastOfFirst (s : Front α) : Sorting.bag (s.lastOfFirst a b).1 = s.bag a b := by
  simp only [lastOfFirst, bag, bag_append]
  abel

variable {i j : Nat} {taken : Array α} {x y : α} {patience patience' : Nat}

theorem bag_takeFirst (hx : a[i]? = some x) :
    bag a b ⟨i + 1, j, taken.push x, patience⟩ = bag a b ⟨i, j, taken, patience'⟩ := by
  obtain ⟨hi, -⟩ := Array.getElem?_eq_some_iff.mp hx
  simp only [bag, bag_push]
  rw [← bag_stretch_add a (Nat.le_succ i) hi, bag_stretch_one hx]
  abel

theorem bag_takeSecond (hy : b[j]? = some y) :
    bag a b ⟨i, j + 1, taken.push y, patience⟩ = bag a b ⟨i, j, taken, patience'⟩ := by
  obtain ⟨hj, -⟩ := Array.getElem?_eq_some_iff.mp hy
  simp only [bag, bag_push]
  rw [← bag_stretch_add b (Nat.le_succ j) hj, bag_stretch_one hy]
  abel

theorem bag_takeStretchOfFirst (m : Nat) :
    bag a b ⟨i + m, j, taken ++ stretch (stretch a i a.size) 0 m, patience⟩ = bag a b ⟨i, j, taken, patience'⟩ := by
  simp only [bag, bag_append]
  rw [← bag_stretch_rest a i m]
  abel

theorem bag_takeStretchOfSecond (m : Nat) :
    bag a b ⟨i, j + m, taken ++ stretch (stretch b j b.size) 0 m, patience⟩ = bag a b ⟨i, j, taken, patience'⟩ := by
  simp only [bag, bag_append]
  rw [← bag_stretch_rest b j m]
  abel

/-- The stretch of the first run that a round of stretches begins with, and the element of the second that
comes after it. -/
theorem bag_takeRound (m : Nat) (hy : b[j]? = some y) :
    bag a b ⟨i + m, j + 1, (taken ++ stretch (stretch a i a.size) 0 m).push y, patience⟩ =
      bag a b ⟨i, j, taken, patience'⟩ :=
  calc _ = bag a b ⟨i + m, j, taken ++ stretch (stretch a i a.size) 0 m, patience⟩ := bag_takeSecond hy
    _ = bag a b ⟨i, j, taken, patience'⟩ := bag_takeStretchOfFirst m

/-- The same, and the stretch of the second run that follows. -/
theorem bag_takeStretches (m n : Nat) (hy : b[j]? = some y) :
    bag a b ⟨i + m, j + 1 + n, (taken ++ stretch (stretch a i a.size) 0 m).push y ++
        stretch (stretch b (j + 1) b.size) 0 n, patience⟩ =
      bag a b ⟨i, j, taken, patience'⟩ :=
  calc _ = bag a b ⟨i + m, j + 1, (taken ++ stretch (stretch a i a.size) 0 m).push y, patience⟩ :=
        bag_takeStretchOfSecond n
    _ = bag a b ⟨i, j, taken, patience'⟩ := bag_takeRound m hy

end Front

/-- A merge from the front loses nothing and adds nothing. -/
theorem bag_mergeFront (fuel : Nat) (pace : Pace) (s : Front α) :
    bag (mergeFront less a b fuel pace s).1 = s.bag a b := by
  fun_induction mergeFront less a b fuel pace s with
  | case1 | case8 | case9 => exact Front.bag_finished _
  | case2 _ _ _ _ _ _ hy => exact (Front.bag_finished _).trans (Front.bag_takeSecond hy)
  | case3 _ _ _ _ _ _ hy _ _ _ _ _ ih | case4 _ _ _ _ _ _ hy _ _ _ _ _ ih =>
    exact ih.trans (Front.bag_takeSecond hy)
  | case5 _ _ _ _ _ _ _ hx => exact (Front.bag_lastOfFirst _).trans (Front.bag_takeFirst hx)
  | case6 _ _ _ _ _ _ _ hx _ _ _ _ ih | case7 _ _ _ _ _ _ _ hx _ _ _ _ ih =>
    exact ih.trans (Front.bag_takeFirst hx)
  -- A round of stretches can end after each of its four moves.
  | case10 => exact (Front.bag_lastOfFirst _).trans (Front.bag_takeStretchOfFirst _)
  | case11 => exact (Front.bag_finished _).trans (Front.bag_takeStretchOfFirst _)
  | case12 _ _ s y hy _ _ m t _ x hx u =>
    calc _ = u.bag a b := Front.bag_finished u
      _ = s.bag a b := Front.bag_takeRound m hy
  | case13 _ _ s y hy _ _ m t _ x hx u _ _ n v =>
    calc _ = v.bag a b := Front.bag_finished v
      _ = s.bag a b := Front.bag_takeStretches m n hy
  | case14 _ _ s y hy _ _ m t _ x hx u _ _ n v _ w =>
    calc _ = w.bag a b := Front.bag_lastOfFirst w
      _ = v.bag a b := Front.bag_takeFirst hx
      _ = s.bag a b := Front.bag_takeStretches m n hy
  | case15 _ _ s y hy _ _ m t _ x hx u _ _ n v _ w _ _ ih
  | case16 _ _ s y hy _ _ m t _ x hx u _ _ n v _ w _ _ ih =>
    calc _ = w.bag a b := ih
      _ = v.bag a b := Front.bag_takeFirst hx
      _ = s.bag a b := Front.bag_takeStretches m n hy

namespace Back

/-- The elements that a merge from the back has taken, and those that it still has to take. -/
def bag (a b : Array α) (s : Back α) : Multiset α :=
  Sorting.bag (stretch a 0 s.first) + Sorting.bag (stretch b 0 s.second) + s.taken

theorem bag_finished (s : Back α) : Sorting.bag (s.finished a b).1 = s.bag a b := by
  simp only [finished, bag, bag_append, bag_toArray]

theorem bag_firstOfSecond (s : Back α) : Sorting.bag (s.firstOfSecond a b).1 = s.bag a b := by
  simp only [firstOfSecond, bag, bag_append, bag_toArray]
  abel

variable {i j k : Nat} {taken : List α} {x y : α} {patience patience' : Nat}

theorem bag_takeFirst (hi : 1 ≤ i) (hx : a[i - 1]? = some x) :
    bag a b ⟨i - 1, j, x :: taken, patience⟩ = bag a b ⟨i, j, taken, patience'⟩ := by
  have hone := bag_stretch_one hx
  rw [Nat.sub_add_cancel hi] at hone
  simp only [bag, ← Multiset.cons_coe, ← Multiset.singleton_add]
  rw [← bag_stretch_add a (Nat.zero_le (i - 1)) (Nat.sub_le i 1), hone]
  abel

theorem bag_takeSecond (hj : 1 ≤ j) (hy : b[j - 1]? = some y) :
    bag a b ⟨i, j - 1, y :: taken, patience⟩ = bag a b ⟨i, j, taken, patience'⟩ := by
  have hone := bag_stretch_one hy
  rw [Nat.sub_add_cancel hj] at hone
  simp only [bag, ← Multiset.cons_coe, ← Multiset.singleton_add]
  rw [← bag_stretch_add b (Nat.zero_le (j - 1)) (Nat.sub_le j 1), hone]
  abel

theorem bag_takeStretchOfFirst (hk : k ≤ i) :
    bag a b ⟨k, j, (stretch a k i).toList ++ taken, patience⟩ = bag a b ⟨i, j, taken, patience'⟩ := by
  simp only [bag, ← Multiset.coe_add]
  rw [← bag_stretch_add a (Nat.zero_le k) hk]
  change _ + _ + (Sorting.bag (stretch a k i) + _) = _
  abel

theorem bag_takeStretchOfSecond (hk : k ≤ j) :
    bag a b ⟨i, k, (stretch b k j).toList ++ taken, patience⟩ = bag a b ⟨i, j, taken, patience'⟩ := by
  simp only [bag, ← Multiset.coe_add]
  rw [← bag_stretch_add b (Nat.zero_le k) hk]
  change _ + _ + (Sorting.bag (stretch b k j) + _) = _
  abel

theorem bag_takeRound (hk : k ≤ i) (hj : 1 ≤ j) (hy : b[j - 1]? = some y) :
    bag a b ⟨k, j - 1, y :: ((stretch a k i).toList ++ taken), patience⟩ = bag a b ⟨i, j, taken, patience'⟩ :=
  calc _ = bag a b ⟨k, j, (stretch a k i).toList ++ taken, patience⟩ := bag_takeSecond hj hy
    _ = bag a b ⟨i, j, taken, patience'⟩ := bag_takeStretchOfFirst hk

theorem bag_takeStretches {l : Nat} (hk : k ≤ i) (hj : 1 ≤ j) (hy : b[j - 1]? = some y) (hl : l ≤ j - 1) :
    bag a b ⟨k, l, (stretch b l (j - 1)).toList ++ y :: ((stretch a k i).toList ++ taken), patience⟩ =
      bag a b ⟨i, j, taken, patience'⟩ :=
  calc _ = bag a b ⟨k, j - 1, y :: ((stretch a k i).toList ++ taken), patience⟩ := bag_takeStretchOfSecond hl
    _ = bag a b ⟨i, j, taken, patience'⟩ := bag_takeRound hk hj hy

end Back

/-- A merge from the back loses and adds nothing as long as neither run is used up, nor the second one but for
its first element. -/
theorem bag_mergeBack (fuel : Nat) (pace : Pace) (s : Back α) (hfirst : 1 ≤ s.first) (hsecond : 2 ≤ s.second) :
    bag (mergeBack less a b fuel pace s).1 = s.bag a b := by
  have hsome : 1 ≤ s.second := Nat.le_of_succ_le hsecond
  fun_induction mergeBack less a b fuel pace s with
  | case1 | case8 | case9 => exact Back.bag_finished _
  | case2 _ _ _ _ _ _ _ hx => exact (Back.bag_finished _).trans (Back.bag_takeFirst hfirst hx)
  | case3 _ _ _ _ _ _ _ hx _ t hleft _ ih | case4 _ _ _ _ _ _ _ hx _ t hleft _ ih =>
    exact (ih (Nat.pos_of_ne_zero hleft) hsecond hsome).trans (Back.bag_takeFirst hfirst hx)
  | case5 _ _ _ _ _ _ hy => exact (Back.bag_firstOfSecond _).trans (Back.bag_takeSecond hsome hy)
  | case6 _ _ _ s _ _ hy _ _ t hleft _ ih | case7 _ _ _ s _ _ hy _ _ t hleft _ ih =>
    have ht : t.second = s.second - 1 := rfl
    exact (ih hfirst (by omega) (by omega)).trans (Back.bag_takeSecond hsome hy)
  -- A round of stretches can end after each of its four moves.
  | case10 _ _ s y hy _ kept =>
    have hkept : kept ≤ s.first := gallop_last_le _ _ hfirst
    exact (Back.bag_finished _).trans (Back.bag_takeStretchOfFirst hkept)
  | case11 _ _ s y hy _ kept t _ u =>
    have hkept : kept ≤ s.first := gallop_last_le _ _ hfirst
    calc _ = u.bag a b := Back.bag_firstOfSecond u
      _ = s.bag a b := Back.bag_takeRound hkept hsome hy
  | case12 _ _ s y hy _ kept t _ u =>
    have hkept : kept ≤ s.first := gallop_last_le _ _ hfirst
    calc _ = u.bag a b := Back.bag_finished u
      _ = s.bag a b := Back.bag_takeRound hkept hsome hy
  | case13 _ _ s y hy _ kept t _ u _ x hx rest n v =>
    have hkept : kept ≤ s.first := gallop_last_le _ _ hfirst
    have hrest : rest ≤ u.second := gallop_last_le _ _ (Nat.le_sub_one_of_lt hsecond)
    calc _ = v.bag a b := Back.bag_firstOfSecond v
      _ = s.bag a b := Back.bag_takeStretches hkept hsome hy hrest
  | case14 _ _ s y hy _ kept t _ u _ x hx rest n v =>
    have hkept : kept ≤ s.first := gallop_last_le _ _ hfirst
    have hrest : rest ≤ u.second := gallop_last_le _ _ (Nat.le_sub_one_of_lt hsecond)
    calc _ = v.bag a b := Back.bag_finished v
      _ = s.bag a b := Back.bag_takeStretches hkept hsome hy hrest
  | case15 _ _ s y hy _ kept t hleft u _ x hx rest n v _ _ w =>
    have hkept : kept ≤ s.first := gallop_last_le _ _ hfirst
    have hrest : rest ≤ u.second := gallop_last_le _ _ (Nat.le_sub_one_of_lt hsecond)
    calc _ = w.bag a b := Back.bag_finished w
      _ = v.bag a b := Back.bag_takeFirst (Nat.pos_of_ne_zero hleft) hx
      _ = s.bag a b := Back.bag_takeStretches hkept hsome hy hrest
  | case16 _ _ s y hy _ kept m t hleft u hmany x hx rest n v hmore hnonzero w hagain _ ih
  | case17 _ _ s y hy _ kept m t hleft u hmany x hx rest n v hmore hnonzero w hagain _ ih =>
    have hkept : kept ≤ s.first := gallop_last_le _ _ hfirst
    have hrest : rest ≤ u.second := gallop_last_le _ _ (Nat.le_sub_one_of_lt hsecond)
    have hu : u.second = s.second - 1 := rfl
    have hn : n = u.second - rest := rfl
    have hv : v.second = rest := rfl
    have hlonger : 2 ≤ v.second := by
      simp only [Bool.and_eq_true, decide_eq_true_eq] at hmore
      omega
    calc _ = w.bag a b := ih (Nat.pos_of_ne_zero hagain) hlonger (Nat.le_of_succ_le hlonger)
      _ = v.bag a b := Back.bag_takeFirst (Nat.pos_of_ne_zero hleft) hx
      _ = s.bag a b := Back.bag_takeStretches hkept hsome hy hrest

theorem bag_mergeInner (patience : Nat) (hb : 0 < b.size) : bag (mergeInner less a b patience).1 = bag a + bag b := by
  unfold mergeInner
  extract_lets fuel
  split
  · split
    · next hnone =>
      have hempty := Array.getElem?_eq_none_iff.mp hnone
      omega
    · next y hy =>
      extract_lets s
      have hs : s.bag a b = bag a + bag b := by
        calc s.bag a b = Front.bag a b ⟨0, 1, (#[] : Array α).push y, patience⟩ := rfl
          _ = Front.bag a b ⟨0, 0, #[], patience⟩ := Front.bag_takeSecond hy
          _ = bag a + bag b := by simp [Front.bag, bag]
      split
      · exact (Front.bag_finished s).trans hs
      · split
        · exact (Front.bag_lastOfFirst s).trans hs
        · exact (bag_mergeFront less fuel (.single 0 0) s).trans hs
  · split
    · next hnone =>
      have hempty := Array.getElem?_eq_none_iff.mp hnone
      omega
    · next x hx =>
      extract_lets s
      have hs : s.bag a b = bag a + bag b := by
        calc s.bag a b = Back.bag a b ⟨a.size, b.size, [], patience⟩ := Back.bag_takeFirst (by omega) hx
          _ = bag a + bag b := by simp [Back.bag]
      split
      · exact (Back.bag_finished s).trans hs
      · next hfirst =>
        split
        · exact (Back.bag_firstOfSecond s).trans hs
        · next hsecond =>
          have hmany : 2 ≤ b.size := by omega
          exact (bag_mergeBack less fuel (.single 0 0) s (Nat.pos_of_ne_zero hfirst) hmany).trans hs

/-- Two runs are merged to one of the same elements. -/
theorem bag_merge (a b : Array α) (patience : Nat) : bag (merge less a b patience).1 = bag a + bag b := by
  unfold merge
  split
  · next y x hy hx =>
    extract_lets front back r
    split
    · exact bag_append a b
    · split
      · exact bag_append a b
      · next hback =>
        have hsome : 0 < (stretch b 0 back).size := by
          obtain ⟨hb, -⟩ := Array.getElem?_eq_some_iff.mp hy
          simp only [stretch, Array.size_extract]
          omega
        have hr : bag r.1 = bag (stretch a front a.size) + bag (stretch b 0 back) :=
          bag_mergeInner less patience hsome
        simp only [bag_append]
        rw [hr, ← bag_stretch_split a front, ← bag_stretch_split b back]
        abel
  · exact bag_append a b

end EntityStore.Sorting

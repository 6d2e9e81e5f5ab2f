import EntityStore.Proofs.Sorting.Compatible

namespace EntityStore.Sorting

variable {α : Type} (less : α → α → Bool) {a b : Array α}

namespace Back

/-- What comes of a merge from the back if what is left is merged plainly. -/
def outcome (a b : Array α) (s : Back α) : List α :=
  (a.toList.take s.first).merge (b.toList.take s.second) (stays less) ++ s.taken

theorem outcome_finished {s : Back α} (h : s.first = 0 ∨ s.second = 0) :
    (s.finished a b).1.toList = s.outcome less a b := by
  rw [finished, outcome]
  rcases h with hfirst | hsecond
  · simp [hfirst]
  · simp [hsecond]

theorem outcome_firstOfSecond {s : Back α} {y : α} (hy : b[0]? = some y) (hsecond : s.second = 1)
    (h : ∀ x ∈ a.toList, less y x = true) : (s.firstOfSecond a b).1.toList = s.outcome less a b := by
  have hone : b.toList.take 1 = [y] := take_eq_append (Nat.le_refl 1) hy
  have hbehind : ∀ x ∈ a.toList.take s.first, ∀ y' ∈ [y], stays less x y' = false := by
    intro x hx y' hy'
    rw [List.mem_singleton.mp hy']
    simp [stays, h x (List.mem_of_mem_take hx)]
  have hmerge : ([] ++ a.toList.take s.first).merge [y] (stays less) =
      [].merge [y] (stays less) ++ a.toList.take s.first := merge_append_left_end hbehind
  rw [List.nil_append, List.nil_merge] at hmerge
  simp [firstOfSecond, outcome, hsecond, hone, hmerge]

variable {i j k : Nat} {taken : List α} {x y : α} {patience patience' : Nat}

theorem outcome_takeStretchOfFirst (hk : k ≤ i)
    (h : ∀ x ∈ (a.toList.take i).drop k, ∀ y ∈ b.toList.take j, less y x = true) :
    outcome less a b ⟨k, j, (stretch a k i).toList ++ taken, patience⟩ =
      outcome less a b ⟨i, j, taken, patience'⟩ := by
  have hbehind : ∀ x ∈ (a.toList.take i).drop k, ∀ y ∈ b.toList.take j, stays less x y = false :=
    fun x hx y hy => by simp [stays, h x hx y hy]
  simp only [outcome]
  rw [take_split a.toList hk, merge_append_left_end hbehind, toList_stretch, List.drop_take, List.append_assoc]

theorem outcome_takeStretchOfSecond (hk : k ≤ j)
    (h : ∀ y ∈ (b.toList.take j).drop k, ∀ x ∈ a.toList.take i, stays less x y = true) :
    outcome less a b ⟨i, k, (stretch b k j).toList ++ taken, patience⟩ =
      outcome less a b ⟨i, j, taken, patience'⟩ := by
  simp only [outcome]
  rw [take_split b.toList hk, merge_append_right_end fun x hx y hy => h y hy x hx, toList_stretch, List.drop_take,
    List.append_assoc]

theorem outcome_takeFirst (hi : 1 ≤ i) (hx : a[i - 1]? = some x) (h : ∀ y ∈ b.toList.take j, less y x = true) :
    outcome less a b ⟨i - 1, j, x :: taken, patience⟩ = outcome less a b ⟨i, j, taken, patience'⟩ := by
  have hbehind : ∀ x' ∈ [x], ∀ y ∈ b.toList.take j, stays less x' y = false := by
    intro x' hx' y hy
    rw [List.mem_singleton.mp hx']
    simp [stays, h y hy]
  simp only [outcome]
  rw [take_eq_append hi hx, merge_append_left_end hbehind, List.append_assoc]
  rfl

theorem outcome_takeSecond (hj : 1 ≤ j) (hy : b[j - 1]? = some y) (h : ∀ x ∈ a.toList.take i, stays less x y = true) :
    outcome less a b ⟨i, j - 1, y :: taken, patience⟩ = outcome less a b ⟨i, j, taken, patience'⟩ := by
  have hfront : ∀ x ∈ a.toList.take i, ∀ y' ∈ [y], stays less x y' = true := by
    intro x hx y' hy'
    rw [List.mem_singleton.mp hy']
    exact h x hx
  simp only [outcome]
  rw [take_eq_append hj hy, merge_append_right_end hfront, List.append_assoc]
  rfl

/-- The stretch of the first run that a round of stretches begins with, and the element of the second that comes
before it. -/
theorem outcome_takeRound (hk : k ≤ i)
    (hstretch : ∀ x ∈ (a.toList.take i).drop k, ∀ y ∈ b.toList.take j, less y x = true) (hj : 1 ≤ j)
    (hy : b[j - 1]? = some y) (hstays : ∀ x ∈ a.toList.take k, stays less x y = true) :
    outcome less a b ⟨k, j - 1, y :: ((stretch a k i).toList ++ taken), patience⟩ =
      outcome less a b ⟨i, j, taken, patience'⟩ :=
  calc _ = outcome less a b ⟨k, j, (stretch a k i).toList ++ taken, patience⟩ :=
        outcome_takeSecond less hj hy hstays
    _ = outcome less a b ⟨i, j, taken, patience'⟩ := outcome_takeStretchOfFirst less hk hstretch

end Back

/-- A merge from the back is the plain merge if the first element of the second run comes before the first run. -/
theorem toList_mergeBack (h : Compatible less a.toList b.toList)
    (hfront : ∀ y, b[0]? = some y → ∀ x ∈ a.toList, less y x = true) (fuel : Nat) (pace : Pace) (s : Back α)
    (hfirst : 1 ≤ s.first) (hfirst' : s.first ≤ a.size) (hsecond : 2 ≤ s.second) (hsecond' : s.second ≤ b.size)
    (hfuel : s.first + s.second < fuel) : (mergeBack less a b fuel pace s).1.toList = s.outcome less a b := by
  have hsome : 1 ≤ s.second := Nat.le_of_succ_le hsecond
  have hbefore {t : Back α} (ht : t.second = 1) : (t.firstOfSecond a b).1.toList = t.outcome less a b := by
    have hy : b[0]? = some b[0] := Array.getElem?_eq_getElem (by omega)
    exact Back.outcome_firstOfSecond less hy ht (hfront _ hy)
  fun_induction mergeBack less a b fuel pace s with
  | case1 => omega
  | case2 _ _ _ s x y hy hx hless t ht =>
    exact (Back.outcome_finished less (.inl ht)).trans
      (Back.outcome_takeFirst less hfirst hx (h.less_of_mem_take hx hy hless))
  | case3 fuel _ _ s x y hy hx hless t ht _ ih | case4 fuel _ _ s x y hy hx hless t ht _ ih =>
    have hi : t.first = s.first - 1 := rfl
    have hj : t.second = s.second := rfl
    exact (ih (by omega) (by omega) hsecond hsecond' (by omega) hsome).trans
      (Back.outcome_takeFirst less hfirst hx (h.less_of_mem_take hx hy hless))
  | case5 fuel _ _ s x y hy hx hless t ht =>
    exact (hbefore ht).trans (Back.outcome_takeSecond less hsome hy (h.stays_of_mem_take hy hx hless))
  | case6 fuel _ _ s x y hy hx hless t ht _ ih | case7 fuel _ _ s x y hy hx hless t ht _ ih =>
    have hi : t.first = s.first := rfl
    have hj : t.second = s.second - 1 := rfl
    exact (ih hfirst hfirst' (by omega) (by omega) (by omega) (by omega)).trans
      (Back.outcome_takeSecond less hsome hy (h.stays_of_mem_take hy hx hless))
  | case8 _ _ _ s hnone =>
    exact (hnone _ _ (Array.getElem?_eq_getElem (by omega)) (Array.getElem?_eq_getElem (by omega))).elim
  | case9 _ _ s hnone =>
    have houtside := Array.getElem?_eq_none_iff.mp hnone
    omega
  -- A round of stretches can end after each of its four moves.
  | case10 _ _ s y hy _ kept t ht =>
    obtain ⟨hkept, hstays, hstretch⟩ := h.gallopRight_back hy hfirst hfirst'
    calc _ = t.outcome less a b := Back.outcome_finished less (.inl ht)
      _ = s.outcome less a b := Back.outcome_takeStretchOfFirst less hkept hstretch
  | case11 _ _ s y hy _ kept t _ u hu =>
    obtain ⟨hkept, hstays, hstretch⟩ := h.gallopRight_back hy hfirst hfirst'
    calc _ = u.outcome less a b := hbefore hu
      _ = s.outcome less a b := Back.outcome_takeRound less hkept hstretch hsome hy hstays
  | case12 _ _ s y hy _ kept t ht u _ hnone =>
    obtain ⟨hkept, -, -⟩ := h.gallopRight_back hy hfirst hfirst'
    have houtside := Array.getElem?_eq_none_iff.mp hnone
    have hu : u.first = kept := rfl
    omega
  | case13 _ _ s y hy _ kept t ht u _ x hx rest n v hv =>
    obtain ⟨hkept, hstays, hstretch⟩ := h.gallopRight_back hy hfirst hfirst'
    obtain ⟨hrest, hless, hstretch'⟩ := h.gallopLeft_back hx (Nat.le_sub_one_of_lt hsecond) (by omega)
    have hend : v.second = 1 := of_decide_eq_true ((Bool.and_eq_true _ _).mp hv).2
    calc _ = v.outcome less a b := hbefore hend
      _ = u.outcome less a b := Back.outcome_takeStretchOfSecond less hrest hstretch'
      _ = s.outcome less a b := Back.outcome_takeRound less hkept hstretch hsome hy hstays
  | case14 _ _ s y hy _ kept t ht u _ x hx rest n v _ hv =>
    obtain ⟨hkept, hstays, hstretch⟩ := h.gallopRight_back hy hfirst hfirst'
    obtain ⟨hrest, hless, hstretch'⟩ := h.gallopLeft_back hx (Nat.le_sub_one_of_lt hsecond) (by omega)
    calc _ = v.outcome less a b := Back.outcome_finished less (.inr hv)
      _ = u.outcome less a b := Back.outcome_takeStretchOfSecond less hrest hstretch'
      _ = s.outcome less a b := Back.outcome_takeRound less hkept hstretch hsome hy hstays
  | case15 _ _ s y hy _ kept t ht u _ x hx rest n v _ _ w hw =>
    obtain ⟨hkept, hstays, hstretch⟩ := h.gallopRight_back hy hfirst hfirst'
    obtain ⟨hrest, hless, hstretch'⟩ := h.gallopLeft_back hx (Nat.le_sub_one_of_lt hsecond) (by omega)
    calc _ = w.outcome less a b := Back.outcome_finished less (.inl hw)
      _ = v.outcome less a b := Back.outcome_takeFirst less (Nat.pos_of_ne_zero ht) hx hless
      _ = u.outcome less a b := Back.outcome_takeStretchOfSecond less hrest hstretch'
      _ = s.outcome less a b := Back.outcome_takeRound less hkept hstretch hsome hy hstays
  | case16 fuel _ s y hy _ kept m t ht u hmany x hx rest n v hmore hnonzero w hw _ ih
  | case17 fuel _ s y hy _ kept m t ht u hmany x hx rest n v hmore hnonzero w hw _ ih =>
    obtain ⟨hkept, hstays, hstretch⟩ := h.gallopRight_back hy hfirst hfirst'
    obtain ⟨hrest, hless, hstretch'⟩ := h.gallopLeft_back hx (Nat.le_sub_one_of_lt hsecond) (by omega)
    have hrest' : rest ≤ u.second := hrest
    have hu : u.second = s.second - 1 := rfl
    have hn : n = u.second - rest := rfl
    have hv : v.second = rest := rfl
    have hw' : w.first = kept - 1 := rfl
    have hlonger : 2 ≤ v.second := by
      simp only [Bool.and_eq_true, decide_eq_true_eq] at hmore
      omega
    have hfirst'' : w.first ≤ a.size := by omega
    have hsecond'' : v.second ≤ b.size := by omega
    have hfuel' : w.first + v.second < fuel := by omega
    calc _ = w.outcome less a b :=
          ih (Nat.pos_of_ne_zero hw) hfirst'' hlonger hsecond'' hfuel' (Nat.le_of_succ_le hlonger)
      _ = v.outcome less a b := Back.outcome_takeFirst less (Nat.pos_of_ne_zero ht) hx hless
      _ = u.outcome less a b := Back.outcome_takeStretchOfSecond less hrest hstretch'
      _ = s.outcome less a b := Back.outcome_takeRound less hkept hstretch hsome hy hstays

end EntityStore.Sorting

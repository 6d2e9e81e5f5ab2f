import EntityStore.Proofs.Sorting.Compatible

namespace EntityStore.Sorting

variable {α : Type} (less : α → α → Bool) {a b : Array α}

namespace Front

/-- What comes of a merge from the front if what is left is merged plainly. -/
def outcome (a b : Array α) (s : Front α) : List α :=
  s.taken.toList ++ (a.toList.drop s.first).merge (b.toList.drop s.second) (stays less)

theorem outcome_finished {s : Front α} (h : a.size ≤ s.first ∨ b.size ≤ s.second) :
    (s.finished a b).1.toList = s.outcome less a b := by
  rw [finished, outcome, Array.toList_append, Array.toList_append, toList_stretch_size, toList_stretch_size,
    List.append_assoc]
  rcases h with hfirst | hsecond
  · rw [List.drop_of_length_le hfirst, List.nil_append, List.nil_merge]
  · rw [List.drop_of_length_le hsecond, List.append_nil, List.merge_right]

theorem outcome_lastOfFirst {s : Front α} {x : α} (hx : a[s.first]? = some x) (hlast : s.first + 1 = a.size)
    (h : ∀ y ∈ b.toList, less y x = true) : (s.lastOfFirst a b).1.toList = s.outcome less a b := by
  rw [lastOfFirst, outcome, Array.toList_append, Array.toList_append, toList_stretch_size, toList_stretch_size,
    List.append_assoc, drop_eq_cons hx, hlast, List.drop_of_length_le (Nat.le_of_eq Array.length_toList)]
  have hbehind : ∀ y ∈ b.toList.drop s.second, stays less x y = false := fun y hy => by
    simp [stays, h y (List.mem_of_mem_drop hy)]
  have hmerge : [x].merge (b.toList.drop s.second ++ []) (stays less) =
      b.toList.drop s.second ++ [x].merge [] (stays less) := merge_append_right hbehind
  rw [List.append_nil, List.merge_right] at hmerge
  rw [hmerge]

variable {i j m n : Nat} {taken : Array α} {x y : α} {patience patience' : Nat}

theorem outcome_takeFirst (hx : a[i]? = some x) (hy : b[j]? = some y) (h : less y x = false) :
    outcome less a b ⟨i + 1, j, taken.push x, patience⟩ = outcome less a b ⟨i, j, taken, patience'⟩ := by
  have hstays : stays less x y = true := by simp [stays, h]
  simp only [outcome]
  rw [drop_eq_cons hx, drop_eq_cons hy, List.cons_merge_cons, if_pos hstays, Array.toList_push, List.append_assoc]
  rfl

theorem outcome_takeSecond (hx : a[i]? = some x) (hy : b[j]? = some y) (h : less y x = true) :
    outcome less a b ⟨i, j + 1, taken.push y, patience⟩ = outcome less a b ⟨i, j, taken, patience'⟩ := by
  have hstays : ¬ stays less x y = true := by simp [stays, h]
  simp only [outcome]
  rw [drop_eq_cons hx, drop_eq_cons hy, List.cons_merge_cons, if_neg hstays, Array.toList_push, List.append_assoc]
  rfl

theorem outcome_takeStretchOfFirst (hy : b[j]? = some y)
    (h : ∀ x ∈ (a.toList.drop i).take m, stays less x y = true) :
    outcome less a b ⟨i + m, j, taken ++ stretch (stretch a i a.size) 0 m, patience⟩ =
      outcome less a b ⟨i, j, taken, patience'⟩ := by
  have hmerge : ((a.toList.drop i).take m ++ (a.toList.drop i).drop m).merge (y :: b.toList.drop (j + 1)) (stays less) =
      (a.toList.drop i).take m ++ ((a.toList.drop i).drop m).merge (y :: b.toList.drop (j + 1)) (stays less) :=
    merge_append_left h
  rw [List.take_append_drop, List.drop_drop] at hmerge
  simp only [outcome]
  rw [drop_eq_cons hy, hmerge, Array.toList_append, toList_stretch, toList_stretch_size, List.append_assoc]
  rfl

theorem outcome_takeStretchOfSecond (hx : a[i]? = some x)
    (h : ∀ y ∈ (b.toList.drop j).take n, less y x = true) :
    outcome less a b ⟨i, j + n, taken ++ stretch (stretch b j b.size) 0 n, patience⟩ =
      outcome less a b ⟨i, j, taken, patience'⟩ := by
  have hbehind : ∀ y ∈ (b.toList.drop j).take n, stays less x y = false := fun y hy => by simp [stays, h y hy]
  have hmerge : (x :: a.toList.drop (i + 1)).merge ((b.toList.drop j).take n ++ (b.toList.drop j).drop n) (stays less) =
      (b.toList.drop j).take n ++ (x :: a.toList.drop (i + 1)).merge ((b.toList.drop j).drop n) (stays less) :=
    merge_append_right hbehind
  rw [List.take_append_drop, List.drop_drop] at hmerge
  simp only [outcome]
  rw [drop_eq_cons hx, hmerge, Array.toList_append, toList_stretch, toList_stretch_size, List.append_assoc]
  rfl

/-- The stretch of the first run that a round of stretches begins with, and the element of the second that comes
after it. -/
theorem outcome_takeRound (hy : b[j]? = some y) (hstretch : ∀ x ∈ (a.toList.drop i).take m, stays less x y = true)
    (hx : a[i + m]? = some x) (hless : less y x = true) :
    outcome less a b ⟨i + m, j + 1, (taken ++ stretch (stretch a i a.size) 0 m).push y, patience⟩ =
      outcome less a b ⟨i, j, taken, patience'⟩ :=
  calc _ = outcome less a b ⟨i + m, j, taken ++ stretch (stretch a i a.size) 0 m, patience⟩ :=
        outcome_takeSecond less hx hy hless
    _ = outcome less a b ⟨i, j, taken, patience'⟩ := outcome_takeStretchOfFirst less hy hstretch

/-- The same, and the stretch of the second run that follows. -/
theorem outcome_takeStretches (hy : b[j]? = some y)
    (hstretch : ∀ x ∈ (a.toList.drop i).take m, stays less x y = true) (hx : a[i + m]? = some x)
    (hless : less y x = true) (hstretch' : ∀ y ∈ (b.toList.drop (j + 1)).take n, less y x = true) :
    outcome less a b ⟨i + m, j + 1 + n, (taken ++ stretch (stretch a i a.size) 0 m).push y ++
        stretch (stretch b (j + 1) b.size) 0 n, patience⟩ =
      outcome less a b ⟨i, j, taken, patience'⟩ :=
  calc _ = outcome less a b ⟨i + m, j + 1, (taken ++ stretch (stretch a i a.size) 0 m).push y, patience⟩ :=
        outcome_takeStretchOfSecond less hx hstretch'
    _ = outcome less a b ⟨i, j, taken, patience'⟩ := outcome_takeRound less hy hstretch hx hless

end Front

/-- A merge from the front is the plain merge if the last element of the first run comes behind the second run. -/
theorem toList_mergeFront (h : Compatible less a.toList b.toList)
    (hlast : ∀ i x, i + 1 = a.size → a[i]? = some x → ∀ y ∈ b.toList, less y x = true) (fuel : Nat) (pace : Pace)
    (s : Front α) (hfirst : s.first + 1 < a.size) (hsecond : s.second < b.size)
    (hfuel : a.size + b.size < s.first + s.second + fuel) :
    (mergeFront less a b fuel pace s).1.toList = s.outcome less a b := by
  -- Where only the last element of the first run is left, all of the second run comes before it.
  have hbehind {t : Front α} (ht : t.first + 1 = a.size) : (t.lastOfFirst a b).1.toList = t.outcome less a b := by
    have hx : a[t.first]? = some a[t.first] := Array.getElem?_eq_getElem (by omega)
    exact Front.outcome_lastOfFirst less hx ht (hlast t.first _ ht hx)
  fun_induction mergeFront less a b fuel pace s with
  | case1 => omega
  | case2 _ _ _ s x y hy hx hless t ht =>
    exact (Front.outcome_finished less (.inr (Nat.le_of_eq ht.symm))).trans (Front.outcome_takeSecond less hx hy hless)
  | case3 _ _ _ s x y hy hx hless t ht _ ih | case4 _ _ _ s x y hy hx hless t ht _ ih =>
    have hi : t.first = s.first := rfl
    have hj : t.second = s.second + 1 := rfl
    exact (ih hfirst (by omega) (by omega)).trans (Front.outcome_takeSecond less hx hy hless)
  | case5 _ _ _ s x y hy hx hless t ht =>
    exact (hbehind ht).trans (Front.outcome_takeFirst less hx hy (by simpa using hless))
  | case6 _ _ _ s x y hy hx hless t ht _ ih | case7 _ _ _ s x y hy hx hless t ht _ ih =>
    have hi : t.first = s.first + 1 := rfl
    have hj : t.second = s.second := rfl
    exact (ih (by omega) hsecond (by omega)).trans (Front.outcome_takeFirst less hx hy (by simpa using hless))
  | case8 _ _ _ s hnone =>
    exact (hnone _ _ (Array.getElem?_eq_getElem (by omega)) (Array.getElem?_eq_getElem hsecond)).elim
  | case9 _ _ s hnone =>
    have houtside := Array.getElem?_eq_none_iff.mp hnone
    omega
  -- A round of stretches can end after each of its four moves.
  | case10 _ _ s y hy _ rest m t ht =>
    obtain ⟨hstretch, -⟩ := h.gallopRight_rest hy (Nat.lt_of_succ_lt hfirst)
    have hend : t.first + 1 = a.size := of_decide_eq_true ((Bool.and_eq_true _ _).mp ht).2
    calc _ = t.outcome less a b := hbehind hend
      _ = s.outcome less a b := Front.outcome_takeStretchOfFirst less hy hstretch
  | case11 _ _ s y hy _ rest m t _ hnone =>
    obtain ⟨hstretch, -⟩ := h.gallopRight_rest hy (Nat.lt_of_succ_lt hfirst)
    calc _ = t.outcome less a b := Front.outcome_finished less (.inl (Array.getElem?_eq_none_iff.mp hnone))
      _ = s.outcome less a b := Front.outcome_takeStretchOfFirst less hy hstretch
  | case12 _ _ s y hy _ rest m t _ x hx u restOfSecond hempty =>
    obtain ⟨hstretch, hbound⟩ := h.gallopRight_rest hy (Nat.lt_of_succ_lt hfirst)
    have hused : b.size ≤ u.second := by simpa [restOfSecond, stretch] using hempty
    calc _ = u.outcome less a b := Front.outcome_finished less (.inr hused)
      _ = s.outcome less a b := Front.outcome_takeRound less hy hstretch hx (hbound x hx)
  | case13 _ _ s y hy _ rest m t _ x hx u restOfSecond hsome n v hv =>
    obtain ⟨hstretch, hbound⟩ := h.gallopRight_rest hy (Nat.lt_of_succ_lt hfirst)
    have hleft : u.second < b.size := by simpa [restOfSecond, stretch] using hsome
    obtain ⟨hstretch', -⟩ := h.gallopLeft_rest hx hleft
    calc _ = v.outcome less a b := Front.outcome_finished less (.inr (Nat.le_of_eq hv.symm))
      _ = s.outcome less a b := Front.outcome_takeStretches less hy hstretch hx (hbound x hx) hstretch'
  | case14 _ _ s y hy _ rest m t _ x hx u restOfSecond hsome n v hv w hw =>
    obtain ⟨hstretch, hbound⟩ := h.gallopRight_rest hy (Nat.lt_of_succ_lt hfirst)
    have hleft : u.second < b.size := by simpa [restOfSecond, stretch] using hsome
    obtain ⟨hstretch', hbound', hle⟩ := h.gallopLeft_rest hx hleft
    have hy' := Array.getElem?_eq_getElem (Nat.lt_of_le_of_ne hle hv)
    calc _ = w.outcome less a b := hbehind hw
      _ = v.outcome less a b := Front.outcome_takeFirst less hx hy' (hbound' _ hy')
      _ = s.outcome less a b := Front.outcome_takeStretches less hy hstretch hx (hbound x hx) hstretch'
  | case15 fuel _ s y hy _ rest m t hmore x hx u restOfSecond hsome n v hv w hw _ ih
  | case16 fuel _ s y hy _ rest m t hmore x hx u restOfSecond hsome n v hv w hw _ ih =>
    obtain ⟨hstretch, hbound⟩ := h.gallopRight_rest hy (Nat.lt_of_succ_lt hfirst)
    have hleft : u.second < b.size := by simpa [restOfSecond, stretch] using hsome
    obtain ⟨hstretch', hbound', hle⟩ := h.gallopLeft_rest hx hleft
    have hy' := Array.getElem?_eq_getElem (Nat.lt_of_le_of_ne hle hv)
    obtain ⟨hi, -⟩ := Array.getElem?_eq_some_iff.mp hx
    have hw' : w.first = s.first + m + 1 := rfl
    have hv' : w.second = s.second + 1 + n := rfl
    have ht' : t.first = s.first + m := rfl
    simp only [Bool.and_eq_true, decide_eq_true_eq] at hmore
    have hagain : w.first + 1 < a.size := by omega
    have hless' : a.size + b.size < w.first + w.second + fuel := by omega
    calc _ = w.outcome less a b := ih hagain (Nat.lt_of_le_of_ne hle hv) hless'
      _ = v.outcome less a b := Front.outcome_takeFirst less hx hy' (hbound' _ hy')
      _ = s.outcome less a b := Front.outcome_takeStretches less hy hstretch hx (hbound x hx) hstretch'

end EntityStore.Sorting

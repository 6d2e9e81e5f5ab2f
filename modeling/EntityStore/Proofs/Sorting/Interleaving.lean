import EntityStore.Proofs.Sorting.MergeBack
import EntityStore.Proofs.Sorting.MergeFront

namespace EntityStore.Sorting

variable {α : Type} (less : α → α → Bool) {a b : Array α}

/-- A run with the first elements of another one, from which it is told apart at both ends, is merged plainly. -/
theorem toList_mergeInner (h : Compatible less a.toList b.toList)
    (hlast : ∀ i x, i + 1 = a.size → a[i]? = some x → ∀ y ∈ b.toList, less y x = true)
    (hfront : ∀ y, b[0]? = some y → ∀ x ∈ a.toList, less y x = true) (ha : 0 < a.size) (hb : 0 < b.size)
    (patience : Nat) : (mergeInner less a b patience).1.toList = a.toList.merge b.toList (stays less) := by
  unfold mergeInner
  extract_lets fuel
  split
  · split
    · next hnone =>
      have houtside := Array.getElem?_eq_none_iff.mp hnone
      omega
    · next y hy =>
      extract_lets s
      have hx : a[0]? = some a[0] := Array.getElem?_eq_getElem ha
      have hless : less y a[0] = true := hfront y hy a[0] (Array.getElem_mem_toList ha)
      have hs : s.outcome less a b = a.toList.merge b.toList (stays less) := by
        calc s.outcome less a b = Front.outcome less a b ⟨0, 1, (#[] : Array α).push y, patience⟩ := rfl
          _ = Front.outcome less a b ⟨0, 0, #[], patience⟩ := Front.outcome_takeSecond less hx hy hless
          _ = a.toList.merge b.toList (stays less) := rfl
      split
      · next hone => exact (Front.outcome_finished less (.inr (Nat.le_of_eq hone))).trans hs
      · split
        · next hone =>
          have hend : 0 + 1 = a.size := by omega
          exact (Front.outcome_lastOfFirst less hx hend (hlast 0 _ hend hx)).trans hs
        · have hmore : 0 + 1 < a.size := by omega
          have hmore' : 1 < b.size := by omega
          have hfuel : a.size + b.size < 0 + 1 + fuel := by omega
          exact (toList_mergeFront less h hlast fuel (.single 0 0) s hmore hmore' hfuel).trans hs
  · split
    · next hnone =>
      have houtside := Array.getElem?_eq_none_iff.mp hnone
      omega
    · next x hx =>
      extract_lets s
      have hall : ∀ y ∈ b.toList.take b.size, less y x = true := by
        intro y hy
        exact hlast _ x (Nat.sub_add_cancel ha) hx y (List.mem_of_mem_take hy)
      have hs : s.outcome less a b = a.toList.merge b.toList (stays less) := by
        calc s.outcome less a b = Back.outcome less a b ⟨a.size, b.size, [], patience⟩ :=
              Back.outcome_takeFirst less ha hx hall
          _ = a.toList.merge b.toList (stays less) := by
              simp only [Back.outcome]
              rw [take_size, take_size, List.append_nil]
      split
      · next hnone => exact (Back.outcome_finished less (.inl hnone)).trans hs
      · next hsome =>
        split
        · next hone =>
          have hy : b[0]? = some b[0] := Array.getElem?_eq_getElem hb
          exact (Back.outcome_firstOfSecond less hy hone (hfront _ hy)).trans hs
        · have hmore : 2 ≤ b.size := by omega
          have hfuel : a.size - 1 + b.size < fuel := by omega
          exact (toList_mergeBack less h hfront fuel (.single 0 0) s (Nat.pos_of_ne_zero hsome) (Nat.sub_le _ _) hmore
            (Nat.le_refl _) hfuel).trans hs

/-- Elements of the first run that may stay in front of the second, and elements of the second that may stay behind
the first, are left where they are. -/
theorem merge_trimmed (h : Compatible less a.toList b.toList) {x y : α} (hy : b[0]? = some y)
    (hx : a[a.size - 1]? = some x) (ha : 0 < a.size) (hb : 0 < b.size) :
    a.toList.merge b.toList (stays less) =
      a.toList.take (gallopRight less y a a.size 0) ++
        (a.toList.drop (gallopRight less y a a.size 0)).merge (b.toList.take (gallopLeft less x b b.size (b.size - 1)))
          (stays less) ++ b.toList.drop (gallopLeft less x b b.size (b.size - 1)) := by
  obtain ⟨-, hstays, -⟩ := h.gallopRight_front hy ha
  obtain ⟨-, -, hstays'⟩ := h.gallopLeft_back hx hb (Nat.le_refl _)
  generalize gallopRight less y a a.size 0 = front at hstays ⊢
  generalize gallopLeft less x b b.size (b.size - 1) = back at hstays' ⊢
  rw [take_size] at hstays'
  have hfront : (a.toList.take front ++ a.toList.drop front).merge (y :: b.toList.drop 1) (stays less) =
      a.toList.take front ++ (a.toList.drop front).merge (y :: b.toList.drop 1) (stays less) :=
    merge_append_left hstays
  have hback : (a.toList.drop front).merge (b.toList.take back ++ b.toList.drop back) (stays less) =
      (a.toList.drop front).merge (b.toList.take back) (stays less) ++ b.toList.drop back := by
    apply merge_append_right_end
    intro x' hx' y' hy'
    rw [take_size] at hstays'
    exact hstays' y' hy' x' (List.mem_of_mem_drop hx')
  have hcons : b.toList = y :: b.toList.drop 1 := drop_eq_cons hy
  rw [List.take_append_drop, ← hcons] at hfront
  rw [List.take_append_drop] at hback
  rw [hfront, hback, List.append_assoc]

/-- What is left of two runs between elements that stay where they are is merged plainly. -/
theorem toList_mergeInner_trimmed (h : Compatible less a.toList b.toList) {x y : α} (hy : b[0]? = some y)
    (hx : a[a.size - 1]? = some x) {front back : Nat} (hfront : front < a.size) (hback : 0 < back)
    (hsize : back ≤ b.size) (hless : ∀ x ∈ a.toList.drop front, less y x = true)
    (hless' : ∀ y ∈ b.toList.take back, less y x = true) (patience : Nat) :
    (mergeInner less (stretch a front a.size) (stretch b 0 back) patience).1.toList =
      (a.toList.drop front).merge (b.toList.take back) (stays less) := by
  have hrest : (stretch a front a.size).toList = a.toList.drop front := toList_stretch_size a front
  have hkept : (stretch b 0 back).toList = b.toList.take back := toList_stretch b 0 back
  rw [← hrest, ← hkept]
  apply toList_mergeInner
  · rw [hrest, hkept]
    exact h.sublist (List.drop_sublist _ _) (List.take_sublist _ _)
  · intro i x' hi hx' y' hy'
    have hend : front + i = a.size - 1 := by
      simp only [stretch, Array.size_extract] at hi
      omega
    rw [stretch, Array.getElem?_extract, if_pos (by omega), hend, hx] at hx'
    obtain rfl := Option.some.inj hx'
    exact hless' y' (hkept ▸ hy')
  · intro y' hy' x' hx'
    rw [stretch, Array.getElem?_extract, if_pos (by omega), Nat.zero_add, hy] at hy'
    obtain rfl := Option.some.inj hy'
    exact hless x' (hrest ▸ hx')
  · simp only [stretch, Array.size_extract]
    omega
  · simp only [stretch, Array.size_extract]
    omega

/-- Runs in order are merged plainly. -/
theorem toList_merge (h : Compatible less a.toList b.toList) (patience : Nat) :
    (merge less a b patience).1.toList = a.toList.merge b.toList (stays less) := by
  unfold merge
  split
  · next y x hy hx =>
    obtain ⟨hb, -⟩ := Array.getElem?_eq_some_iff.mp hy
    obtain ⟨ha, -⟩ := Array.getElem?_eq_some_iff.mp hx
    have ha : 0 < a.size := by omega
    have htrimmed := merge_trimmed less h hy hx ha hb
    obtain ⟨hfront, -, hless⟩ := h.gallopRight_front hy ha
    obtain ⟨hback, hless', -⟩ := h.gallopLeft_back hx hb (Nat.le_refl _)
    extract_lets front back r
    rw [htrimmed]
    split
    · next hall =>
      rw [show gallopRight less y a a.size 0 = a.size from hall, take_size,
        List.drop_of_length_le (Nat.le_of_eq Array.length_toList)]
      simp
    · next hsome =>
      split
      · next hnone =>
        rw [show gallopLeft less x b b.size (b.size - 1) = 0 from hnone]
        simp
      · next hsome' =>
        have hr : r.1.toList = (a.toList.drop front).merge (b.toList.take back) (stays less) :=
          toList_mergeInner_trimmed less h hy hx (Nat.lt_of_le_of_ne hfront hsome) (Nat.pos_of_ne_zero hsome') hback
            hless hless' patience
        rw [Array.toList_append, Array.toList_append, hr, toList_stretch_size, toList_stretch]
        simp
        rfl
  · next hnone =>
    have hempty : a.toList = [] ∨ b.toList = [] := by
      rcases Nat.eq_zero_or_pos a.size with ha | ha
      · exact .inl (List.eq_nil_of_length_eq_zero ha)
      · rcases Nat.eq_zero_or_pos b.size with hb | hb
        · exact .inr (List.eq_nil_of_length_eq_zero hb)
        · exact (hnone _ _ (Array.getElem?_eq_getElem hb) (Array.getElem?_eq_getElem (Nat.sub_lt ha Nat.one_pos))).elim
    rw [Array.toList_append]
    rcases hempty with ha | hb
    · rw [ha, List.nil_append, List.nil_merge]
    · rw [hb, List.append_nil, List.merge_right]

end EntityStore.Sorting

import EntityStore.Proofs.Sorting.Gallop

namespace EntityStore.Sorting

variable {α : Type}

section

variable {le : α → α → Bool} {p q xs ys : List α}

theorem merge_append_left {y : α} (h : ∀ x ∈ p, le x y = true) :
    (p ++ xs).merge (y :: ys) le = p ++ xs.merge (y :: ys) le := by
  induction p with
  | nil => rfl
  | cons x p ih =>
    obtain ⟨hx, hp⟩ := List.forall_mem_cons.mp h
    rw [List.cons_append, List.cons_merge_cons, if_pos hx, ih hp, List.cons_append]

theorem merge_append_right {x : α} (h : ∀ y ∈ q, le x y = false) :
    (x :: xs).merge (q ++ ys) le = q ++ (x :: xs).merge ys le := by
  induction q with
  | nil => rfl
  | cons y q ih =>
    obtain ⟨hy, hq⟩ := List.forall_mem_cons.mp h
    rw [List.cons_append, List.cons_merge_cons, if_neg (by simp [hy]), ih hq, List.cons_append]

theorem merge_append_left_end (h : ∀ x ∈ p, ∀ y ∈ ys, le x y = false) :
    (xs ++ p).merge ys le = xs.merge ys le ++ p := by
  induction xs generalizing ys with
  | nil =>
    cases p with
    | nil => simp
    | cons x p =>
      have hmerge : (x :: p).merge (ys ++ []) le = ys ++ (x :: p).merge [] le :=
        merge_append_right (h x List.mem_cons_self)
      simpa using hmerge
  | cons x xs ih =>
    induction ys with
    | nil => simp
    | cons y ys ihy =>
      rw [List.cons_append, List.cons_merge_cons, List.cons_merge_cons]
      split
      · rw [ih h, List.cons_append]
      · have hys : ∀ x ∈ p, ∀ y ∈ ys, le x y = false := fun x hx y hy => h x hx y (List.mem_cons_of_mem _ hy)
        rw [← List.cons_append, ihy hys, List.cons_append]

theorem merge_append_right_end (h : ∀ x ∈ xs, ∀ y ∈ q, le x y = true) :
    xs.merge (ys ++ q) le = xs.merge ys le ++ q := by
  induction xs generalizing ys with
  | nil => simp
  | cons x xs ih =>
    have hxs : ∀ x ∈ xs, ∀ y ∈ q, le x y = true := fun x hx => h x (List.mem_cons_of_mem _ hx)
    induction ys with
    | nil =>
      rw [List.nil_append, List.merge_right]
      exact List.merge_of_le fun x y hx hy => h x hx y hy
    | cons y ys ihy =>
      rw [List.cons_append, List.cons_merge_cons, List.cons_merge_cons]
      split
      · rw [← List.cons_append, ih hxs, List.cons_append]
      · rw [ihy, List.cons_append]

end

/-- Whether an element may stay in front of another one. -/
def stays (less : α → α → Bool) (x y : α) : Bool := !less y x

/-- Whether two lists are in order as far as comparisons of the elements of one with those of the other can tell. -/
structure Compatible (less : α → α → Bool) (as bs : List α) : Prop where
  first : ∀ y ∈ bs, Graded (fun x => stays less x y) as
  second : ∀ x ∈ as, Graded (fun y => less y x) bs

theorem Graded.sublist {before : α → Bool} {xs ys : List α} (h : Graded before ys) (hsublist : xs.Sublist ys) :
    Graded before xs :=
  List.Pairwise.sublist hsublist h

theorem Compatible.sublist {less : α → α → Bool} {as bs as' bs' : List α} (h : Compatible less as bs)
    (has : as'.Sublist as) (hbs : bs'.Sublist bs) : Compatible less as' bs' := by
  constructor
  · intro y hy
    exact (h.first y (hbs.mem hy)).sublist has
  · intro x hx
    exact (h.second x (has.mem hx)).sublist hbs

@[simp]
theorem toList_stretch (xs : Array α) (i j : Nat) : (stretch xs i j).toList = (xs.toList.drop i).take (j - i) := by
  simp [stretch, List.extract_eq_take_drop]

theorem toList_stretch_size (xs : Array α) (i : Nat) : (stretch xs i xs.size).toList = xs.toList.drop i := by
  rw [toList_stretch]
  exact List.take_of_length_le (by simp)

theorem take_size (xs : Array α) : xs.toList.take xs.size = xs.toList :=
  List.take_of_length_le (Nat.le_of_eq Array.length_toList)

theorem take_eq_append {xs : Array α} {i : Nat} {x : α} (hi : 1 ≤ i) (h : xs[i - 1]? = some x) :
    xs.toList.take i = xs.toList.take (i - 1) ++ [x] := by
  obtain ⟨hsize, rfl⟩ := Array.getElem?_eq_some_iff.mp h
  have htake : xs.toList.take (i - 1) ++ [xs.toList[i - 1]] = xs.toList.take (i - 1 + 1) :=
    List.take_append_getElem hsize
  rw [Nat.sub_add_cancel hi] at htake
  exact htake.symm

theorem take_split (xs : List α) {k i : Nat} (hk : k ≤ i) : xs.take i = xs.take k ++ (xs.take i).drop k := by
  have hsplit := (List.take_append_drop k (xs.take i)).symm
  rwa [List.take_take, Nat.min_eq_left hk] at hsplit

theorem drop_eq_cons {xs : Array α} {i : Nat} {x : α} (h : xs[i]? = some x) :
    xs.toList.drop i = x :: xs.toList.drop (i + 1) := by
  obtain ⟨hi, rfl⟩ := Array.getElem?_eq_some_iff.mp h
  exact List.drop_eq_getElem_cons (by simpa using hi)

/-- A test that holds for the last of some elements holds for all of them. -/
theorem Graded.of_mem_take {before : α → Bool} {xs : Array α} (h : Graded before xs.toList) {i : Nat} {x y : α}
    (hx : xs[i - 1]? = some x) (hbefore : before x = true) (hy : y ∈ xs.toList.take i) : before y = true := by
  obtain ⟨k, hk, rfl⟩ := List.mem_take_iff_getElem.mp hy
  rw [Array.length_toList] at hk
  exact h.before_of_le (by omega) (Array.getElem?_eq_getElem (by omega)) hx hbefore

/-- A search among what is left of a run. -/
theorem gallop_rest {before : α → Bool} {xs : Array α} {i : Nat} (h : Graded before xs.toList) (hi : i < xs.size) :
    (∀ x ∈ (xs.toList.drop i).take (gallop before (stretch xs i xs.size) (stretch xs i xs.size).size 0),
      before x = true) ∧
    (∀ x, xs[i + gallop before (stretch xs i xs.size) (stretch xs i xs.size).size 0]? = some x → before x = false) ∧
    i + gallop before (stretch xs i xs.size) (stretch xs i xs.size).size 0 ≤ xs.size := by
  have hsize : (stretch xs i xs.size).size = xs.size - i := by simp [stretch]
  have hgraded : Graded before (stretch xs i xs.size).toList := by
    rw [toList_stretch_size]
    exact h.sublist (List.drop_sublist i xs.toList)
  have hsome : 0 < (stretch xs i xs.size).size := by omega
  have hdivides := divides_gallop hgraded hsome (Nat.le_refl _)
  generalize gallop before (stretch xs i xs.size) (stretch xs i xs.size).size 0 = m at hdivides ⊢
  refine ⟨?_, ?_, ?_⟩
  · intro x hx
    apply hdivides.front_of_mem
    rwa [toList_stretch_size]
  · intro x hx
    obtain ⟨hm, rfl⟩ := Array.getElem?_eq_some_iff.mp hx
    have hrest : (stretch xs i xs.size)[m]? = some xs[i + m] := by
      rw [stretch, Array.getElem?_extract, if_pos (by omega), Array.getElem?_eq_getElem hm]
    exact hdivides.behind m _ (Nat.le_refl m) (by omega) hrest
  · have hle := hdivides.le
    omega

namespace Compatible

variable {less : α → α → Bool} {a b : Array α} (h : Compatible less a.toList b.toList) {i j : Nat} {x y : α}
include h

theorem gallopRight_rest (hy : b[j]? = some y) (hi : i < a.size) :
    (∀ x ∈ (a.toList.drop i).take (gallopRight less y (stretch a i a.size) (stretch a i a.size).size 0),
      stays less x y = true) ∧
    ∀ x, a[i + gallopRight less y (stretch a i a.size) (stretch a i a.size).size 0]? = some x →
      less y x = true := by
  obtain ⟨hstretch, hbound, -⟩ := gallop_rest (h.first y (Array.mem_toList_iff.mpr (Array.mem_of_getElem? hy))) hi
  constructor
  · exact hstretch
  · intro x hx
    simpa [stays] using hbound x hx

theorem gallopLeft_rest (hx : a[i]? = some x) (hj : j < b.size) :
    (∀ y ∈ (b.toList.drop j).take (gallopLeft less x (stretch b j b.size) (stretch b j b.size).size 0),
      less y x = true) ∧
    (∀ y, b[j + gallopLeft less x (stretch b j b.size) (stretch b j b.size).size 0]? = some y →
      less y x = false) ∧
    j + gallopLeft less x (stretch b j b.size) (stretch b j b.size).size 0 ≤ b.size :=
  gallop_rest (h.second x (Array.mem_toList_iff.mpr (Array.mem_of_getElem? hx))) hj

/-- A search among the whole first run, from the front on. -/
theorem gallopRight_front (hy : b[j]? = some y) (ha : 0 < a.size) :
    gallopRight less y a a.size 0 ≤ a.size ∧
    (∀ x ∈ a.toList.take (gallopRight less y a a.size 0), stays less x y = true) ∧
    ∀ x ∈ a.toList.drop (gallopRight less y a a.size 0), less y x = true := by
  have hgraded := h.first y (Array.mem_toList_iff.mpr (Array.mem_of_getElem? hy))
  have hdivides := divides_gallop hgraded ha (Nat.le_refl _)
  refine ⟨hdivides.le, fun x hx => hdivides.front_of_mem hx, fun x hx => ?_⟩
  rw [← take_size a] at hx
  simpa [stays] using hdivides.behind_of_mem hx

/-- An element of the first run that comes behind the last of some elements of the second comes behind all of them. -/
theorem less_of_mem_take {i' : Nat} (hx : a[i']? = some x) (hy : b[j - 1]? = some y) (hless : less y x = true) :
    ∀ y ∈ b.toList.take j, less y x = true := by
  intro y' hy'
  exact (h.second x (Array.mem_toList_iff.mpr (Array.mem_of_getElem? hx))).of_mem_take hy hless hy'

/-- An element of the second run behind which the last of some elements of the first does not come may stand behind
all of them. -/
theorem stays_of_mem_take {j' : Nat} (hy : b[j']? = some y) (hx : a[i - 1]? = some x) (hless : ¬less y x = true) :
    ∀ x ∈ a.toList.take i, stays less x y = true := by
  intro x' hx'
  have hstays : stays less x y = true := by simpa [stays] using hless
  exact (h.first y (Array.mem_toList_iff.mpr (Array.mem_of_getElem? hy))).of_mem_take hx hstays hx'

/-- A search among the first elements of the first run, from the last of them on. -/
theorem gallopRight_back (hy : b[j - 1]? = some y) (hi : 1 ≤ i) (hsize : i ≤ a.size) :
    gallopRight less y a i (i - 1) ≤ i ∧
    (∀ x ∈ a.toList.take (gallopRight less y a i (i - 1)), stays less x y = true) ∧
    ∀ x ∈ (a.toList.take i).drop (gallopRight less y a i (i - 1)), ∀ y ∈ b.toList.take j, less y x = true := by
  have hgraded := h.first y (Array.mem_toList_iff.mpr (Array.mem_of_getElem? hy))
  have hdivides := divides_gallop hgraded (Nat.sub_lt hi Nat.one_pos) hsize
  refine ⟨hdivides.le, fun x hx => hdivides.front_of_mem hx, fun x hx y' hy' => ?_⟩
  have hless : less y x = true := by simpa [stays] using hdivides.behind_of_mem hx
  exact (h.second x (List.mem_of_mem_take (List.mem_of_mem_drop hx))).of_mem_take hy hless hy'

theorem gallopLeft_back (hx : a[i - 1]? = some x) (hj : 1 ≤ j) (hsize : j ≤ b.size) :
    gallopLeft less x b j (j - 1) ≤ j ∧
    (∀ y ∈ b.toList.take (gallopLeft less x b j (j - 1)), less y x = true) ∧
    ∀ y ∈ (b.toList.take j).drop (gallopLeft less x b j (j - 1)), ∀ x ∈ a.toList.take i, stays less x y = true := by
  have hgraded := h.second x (Array.mem_toList_iff.mpr (Array.mem_of_getElem? hx))
  have hdivides := divides_gallop hgraded (Nat.sub_lt hj Nat.one_pos) hsize
  refine ⟨hdivides.le, fun y hy => hdivides.front_of_mem hy, fun y hy x' hx' => ?_⟩
  have hstays : stays less x y = true := by simpa [stays] using hdivides.behind_of_mem hy
  exact (h.first y (List.mem_of_mem_take (List.mem_of_mem_drop hy))).of_mem_take hx hstays hx'

end Compatible

end EntityStore.Sorting

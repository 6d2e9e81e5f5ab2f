import EntityStore.Proofs.Sorting.Merge
import EntityStore.Sorting.Runs

namespace EntityStore.Sorting

variable {α : Type} (less : α → α → Bool)

theorem isChain_risingLength (x : α) (xs : List α) :
    (x :: xs.take (risingLength less x xs)).IsChain fun x y => less y x = false := by
  fun_induction risingLength less x xs with
  | case1 x => exact .singleton x
  | case2 x y ys => exact .singleton x
  | case3 x y ys hless ih => exact .cons_cons (by simpa using hless) ih

theorem isChain_fallingLength (x : α) (xs : List α) :
    (x :: xs.take (fallingLength less x xs)).IsChain fun x y => less y x = true := by
  fun_induction fallingLength less x xs with
  | case1 x => exact .singleton x
  | case2 x y ys hless ih => exact .cons_cons hless ih
  | case3 x y ys => exact .singleton x

/-- The run that a list begins with is a part of it that rises, or the reversal of one that falls. -/
theorem firstRun_spec {xs : List α} (h : xs ≠ []) :
    ∃ part, part ≠ [] ∧ xs = part ++ (firstRun less xs).2 ∧
      ((part.IsChain (fun x y => less y x = false) ∧ (firstRun less xs).1 = part) ∨
        (part.IsChain (fun x y => less y x = true) ∧ (firstRun less xs).1 = part.reverse)) := by
  cases xs with
  | nil => exact absurd rfl h
  | cons x xs =>
    simp only [firstRun]
    split
    · refine ⟨x :: xs.take (risingLength less x xs), List.cons_ne_nil _ _, ?_, .inl ⟨?_, rfl⟩⟩
      · rw [List.cons_append, List.take_append_drop]
      · exact isChain_risingLength less x xs
    · refine ⟨x :: xs.take (fallingLength less x xs), List.cons_ne_nil _ _, ?_, .inr ⟨?_, rfl⟩⟩
      · rw [List.cons_append, List.take_append_drop]
      · exact isChain_fallingLength less x xs

theorem fallingLength_eq_zero {x : α} {xs : List α} (h : (x :: xs).IsChain fun x y => less y x = false) :
    fallingLength less x xs = 0 := by
  cases xs with
  | nil => rfl
  | cons y ys => simp [fallingLength, (List.isChain_cons_cons.mp h).1]

theorem risingLength_eq_length {x : α} {xs : List α} (h : (x :: xs).IsChain fun x y => less y x = false) :
    risingLength less x xs = xs.length := by
  induction xs generalizing x with
  | nil => rfl
  | cons y ys ih =>
    obtain ⟨hless, hys⟩ := List.isChain_cons_cons.mp h
    simp [risingLength, hless, ih hys]

/-- A list none of whose elements is less than the one before it is one run. -/
theorem firstRun_of_rising {xs : List α} (h : xs.IsChain fun x y => less y x = false) :
    firstRun less xs = (xs, []) := by
  cases xs with
  | nil => rfl
  | cons x xs => simp [firstRun, fallingLength_eq_zero less h, risingLength_eq_length less h]

/-- It is left as it is, also where the comparisons are those of no order. -/
theorem sort_of_rising {xs : List α} (h : xs.IsChain fun x y => less y x = false) : sort less xs = xs := by
  cases xs with
  | nil => rfl
  | cons x xs =>
    have hnothing (total least fuel start : Nat) (p : Pending α) : addRuns less total least fuel start [] p = p := by
      cases fuel <;> rfl
    simp only [sort, List.length_cons, addRuns, firstRun_of_rising less h, List.take_nil, List.foldl_nil, List.drop_nil,
      hnothing]
    rfl

theorem bag_insert (xs : Array α) (x : α) : bag (insert less xs x) = bag xs + {x} := by
  unfold insert
  extract_lets n
  rw [← bag_stretch_split xs n]
  simp only [bag_append, bag_toArray, Multiset.coe_singleton]
  abel

theorem bag_foldl_insert (ys : List α) (xs : Array α) : bag (ys.foldl (insert less) xs) = bag xs + ys := by
  induction ys generalizing xs with
  | nil => simp
  | cons y ys ih =>
    rw [List.foldl_cons, ih, bag_insert, ← Multiset.cons_coe, ← Multiset.singleton_add]
    abel

/-- The run that is made of the front of a list: the one it begins with, filled up to a least length. -/
def frontRun (least : Nat) (xs : List α) : Array α :=
  ((firstRun less xs).2.take (least - (firstRun less xs).1.length)).foldl (insert less) (firstRun less xs).1.toArray

/-- What of a list is left behind the run that is made of its front. -/
def afterRun (least : Nat) (xs : List α) : List α :=
  (firstRun less xs).2.drop (least - (firstRun less xs).1.length)

/-- What holds of the part of a list that was cut into runs and of these runs, the last one first, whatever is done
with them. -/
structure Maintained (I : List α → List (Run α) → Prop) : Prop where
  none : I [] []
  added : ∀ (least : Nat) {xs : List α}, xs ≠ [] → ∃ part, part ≠ [] ∧ xs = part ++ afterRun less least xs ∧
    ∀ {done runs}, I done runs → ∀ start, I (done ++ part) (⟨start, frontRun less least xs, 0⟩ :: runs)
  late : ∀ {done last runs}, I done (last :: runs) → ∀ lateness, I done ({ last with lateness := lateness } :: runs)
  joined : ∀ (front : List (Run α)) {done first second runs}, I done (front ++ second :: first :: runs) →
    ∀ patience, I done (front ++ (joined less first second patience).1 :: runs)
  few : ∀ {done runs}, I done runs → runs.length ≤ done.length

namespace Maintained

variable {less} {I : List α → List (Run α) → Prop} (h : Maintained less I) {done : List α}
include h

theorem mergeLate (limit fuel : Nat) {p : Pending α} (hp : I done p.runs) :
    I done (mergeLate less limit fuel p).runs := by
  fun_induction Sorting.mergeLate less limit fuel p with
  | case1 | case3 | case4 => exact hp
  | case2 fuel p last before rest hruns _ r ih =>
    rw [hruns] at hp
    exact ih (h.joined [] hp p.patience)

theorem addRun (total start : Nat) {items : Array α} {p : Pending α} {part : List α} (hp : I done p.runs)
    (hadded : ∀ {runs}, I done runs → I (done ++ part) (⟨start, items, 0⟩ :: runs)) :
    I (done ++ part) (addRun less total items start p).runs := by
  fun_cases Sorting.addRun less total items start p with
  | case1 hruns =>
    rw [hruns] at hp
    exact hadded hp
  | case2 _ _ _ _ limit q hruns =>
    have hq : I done q.runs := h.mergeLate limit _ hp
    rw [hruns] at hq
    exact hadded hq
  | case3 _ _ _ _ limit q last rest hruns =>
    have hq : I done q.runs := h.mergeLate limit _ hp
    rw [hruns] at hq
    exact hadded (h.late hq limit)

/-- Each step takes elements off the list, so that as many steps as it has elements take all of them. -/
theorem addRuns (total least : Nat) {fuel start : Nat} {xs : List α} {p : Pending α} (hfuel : xs.length ≤ fuel)
    (hp : I done p.runs) : I (done ++ xs) (addRuns less total least fuel start xs p).runs := by
  fun_induction Sorting.addRuns less total least fuel start xs p generalizing done with
  | case1 _ xs =>
    obtain rfl := List.eq_nil_of_length_eq_zero (Nat.le_zero.mp hfuel)
    simpa using hp
  | case2 => simpa using hp
  | case3 fuel start xs p hxs run rest hrun missing items =>
    rename_i ih
    obtain ⟨part, hpart, hsplit, hadded⟩ := h.added least hxs
    have hitems : items = frontRun less least xs := by
      simp only [frontRun, hrun]
      rfl
    have hrest : rest.drop missing = afterRun less least xs := by
      simp only [afterRun, hrun]
      rfl
    have hsome := List.length_pos_iff.mpr hpart
    have hlength := congrArg List.length hsplit
    rw [List.length_append] at hlength
    rw [hrest, hitems] at ih ⊢
    rw [hsplit, ← List.append_assoc, ← hsplit]
    exact ih (by omega) (h.addRun total start hp fun hruns => hadded hruns start)

/-- One step leaves one run less. -/
theorem mergeAll {fuel : Nat} {p : Pending α} (hfuel : p.runs.length ≤ fuel + 1) (hp : I done p.runs) :
    I done (mergeAll less fuel p).runs ∧ (Sorting.mergeAll less fuel p).runs.length ≤ 1 := by
  fun_induction Sorting.mergeAll less fuel p with
  | case1 => exact ⟨hp, hfuel⟩
  | case2 fuel p last before third rest hruns _ r ih =>
    rw [hruns] at hp hfuel
    exact ih (Nat.le_of_succ_le_succ hfuel) (h.joined [last] hp p.patience)
  | case3 fuel p last before third rest hruns _ r ih =>
    rw [hruns] at hp hfuel
    exact ih (Nat.le_of_succ_le_succ hfuel) (h.joined [] hp p.patience)
  | case4 fuel p last before hruns r =>
    rw [hruns] at hp
    exact ⟨h.joined [] hp p.patience, Nat.le_refl 1⟩
  | case5 fuel p hmore htwo =>
    refine ⟨hp, ?_⟩
    match hruns : p.runs with
    | [] => exact Nat.zero_le 1
    | [_] => exact Nat.le_refl 1
    | [last, before] => exact (htwo last before hruns).elim
    | last :: before :: third :: rest => exact (hmore last before third rest hruns).elim

/-- It holds of the run that is left in the end, if any is. -/
theorem sort (xs : List α) :
    (I xs [] ∧ sort less xs = []) ∨ ∃ run, I xs [run] ∧ Sorting.sort less xs = run.items.toList := by
  unfold Sorting.sort
  extract_lets n pending
  have hadded : I ([] ++ xs) pending.runs := h.addRuns n _ (Nat.le_refl n) h.none
  rw [List.nil_append] at hadded
  obtain ⟨hmerged, hone⟩ := h.mergeAll (Nat.le_succ_of_le (h.few hadded)) hadded
  match hruns : (Sorting.mergeAll less n pending).runs with
  | [] => exact .inl ⟨hruns ▸ hmerged, rfl⟩
  | [last] => exact .inr ⟨last, hruns ▸ hmerged, rfl⟩
  | _ :: _ :: _ =>
    rw [hruns] at hone
    exact absurd hone (by simp)

end Maintained

/-- The elements of some runs. -/
def bags (runs : List (Run α)) : Multiset α := (runs.map fun run => bag run.items).sum

@[simp]
theorem bags_nil : bags ([] : List (Run α)) = 0 := rfl

@[simp]
theorem bags_cons (run : Run α) (runs : List (Run α)) : bags (run :: runs) = bag run.items + bags runs := by
  simp [bags]

@[simp]
theorem bags_append (runs others : List (Run α)) : bags (runs ++ others) = bags runs + bags others := by
  simp [bags]

theorem length_le_card_bags {runs : List (Run α)} (h : ∀ run ∈ runs, 0 < (bag run.items).card) :
    runs.length ≤ (bags runs).card := by
  induction runs with
  | nil => exact Nat.zero_le _
  | cons run runs ih =>
    obtain ⟨hrun, hruns⟩ := List.forall_mem_cons.mp h
    have hrest := ih hruns
    rw [List.length_cons, bags_cons, Multiset.card_add]
    omega

/-- Runs that hold the elements of a list together, and of which none is empty. -/
structure Hold (xs : List α) (runs : List (Run α)) : Prop where
  bags_eq : bags runs = xs
  nonempty : ∀ run ∈ runs, 0 < (bag run.items).card

/-- Runs hold what they are made of, whatever the comparisons say. -/
theorem maintained_hold : Maintained less (Hold (α := α)) where
  none := ⟨rfl, List.forall_mem_nil _⟩
  added := by
    intro least xs hxs
    obtain ⟨part, hpart, hsplit, hrun⟩ := firstRun_spec less hxs
    have hperm : (firstRun less xs).1.Perm part := by
      rcases hrun with ⟨-, hrun⟩ | ⟨-, hrun⟩
      · rw [hrun]
      · exact hrun ▸ List.reverse_perm part
    let filler := (firstRun less xs).2.take (least - (firstRun less xs).1.length)
    refine ⟨part ++ filler, by simp [hpart], ?_, ?_⟩
    · rw [List.append_assoc, afterRun, List.take_append_drop]
      exact hsplit
    · intro done runs hruns start
      have hitems : bag (frontRun less least xs) = (part ++ filler : List α) := by
        rw [frontRun, bag_foldl_insert, bag_toArray, Multiset.coe_eq_coe.mpr hperm, Multiset.coe_add]
      constructor
      · rw [bags_cons, hitems, hruns.bags_eq, add_comm, Multiset.coe_add]
      · have hsome : 0 < (bag (frontRun less least xs)).card := by
          rw [hitems]
          exact List.length_pos_iff.mpr (by simp [hpart])
        exact List.forall_mem_cons.mpr ⟨hsome, hruns.nonempty⟩
  -- How late a run is to be merged says nothing about its elements.
  late := fun h lateness => ⟨h.bags_eq, by simpa using h.nonempty⟩
  joined := by
    intro front done first second rest h patience
    have hjoined : bag (joined less first second patience).1.items = bag first.items + bag second.items :=
      bag_merge less first.items second.items patience
    constructor
    · rw [← h.bags_eq]
      simp only [bags_append, bags_cons, hjoined]
      abel
    · intro run hrun
      have hsecond := h.nonempty second (by simp)
      rcases List.mem_append.mp hrun with hfront | hbehind
      · exact h.nonempty run (List.mem_append_left _ hfront)
      · rcases List.mem_cons.mp hbehind with rfl | hrest
        · rw [hjoined, Multiset.card_add]
          exact Nat.add_pos_right _ hsecond
        · exact h.nonempty run (by simp [hrest])
  few := by
    intro done runs h
    have hcard : done.length = (bags runs).card := by rw [h.bags_eq, Multiset.coe_card]
    rw [hcard]
    exact length_le_card_bags h.nonempty

/-- Sorting loses nothing and adds nothing. -/
theorem sort_perm (xs : List α) : (sort less xs).Perm xs := by
  rcases (maintained_hold less).sort xs with ⟨hnone, hsort⟩ | ⟨run, hrun, hsort⟩
  · rw [hsort]
    exact Multiset.coe_eq_coe.mp hnone.bags_eq
  · have hbags := hrun.bags_eq
    rw [bags_cons, bags_nil, add_zero] at hbags
    rw [hsort]
    exact Multiset.coe_eq_coe.mp hbags

end EntityStore.Sorting

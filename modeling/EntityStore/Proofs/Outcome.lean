import EntityStore.Log
import Mathlib.Data.List.Forall2

namespace EntityStore.Outcome

variable {ε α β : Type}

@[simp]
theorem ok_bind (a : α) (f : α → Except ε β) : (Except.ok a >>= f) = f a := rfl

@[simp]
theorem error_bind (e : ε) (f : α → Except ε β) : (Except.error e >>= f) = .error e := rfl

@[simp]
theorem pure_eq_ok (a : α) : (pure a : Except ε α) = .ok a := rfl

theorem bind_eq_ok {x : Except ε α} {f : α → Except ε β} {b : β} :
    (x >>= f) = .ok b ↔ ∃ a, x = .ok a ∧ f a = .ok b := by
  cases x <;> simp

theorem bind_eq_error {x : Except ε α} {f : α → Except ε β} {e : ε} :
    (x >>= f) = .error e ↔ x = .error e ∨ ∃ a, x = .ok a ∧ f a = .error e := by
  cases x <;> simp

theorem map_eq_ok {x : Except ε α} {f : α → β} {b : β} : x.map f = .ok b ↔ ∃ a, x = .ok a ∧ b = f a := by
  cases x <;> simp [Except.map, eq_comm]

theorem ok_ne_error {x : Except ε α} {a : α} {e : ε} (hok : x = .ok a) (herror : x = .error e) : False := by
  rw [hok] at herror
  cases herror

theorem exists_of_isOk {x : Except ε α} (h : x.isOk = true) : ∃ a, x = .ok a := by
  cases x with
  | ok a => exact ⟨a, rfl⟩
  | error e => exact absurd h Bool.false_ne_true

theorem mapM_ok (f : α → Except ε β) (g : α → β) (xs : List α) (h : ∀ x ∈ xs, f x = .ok (g x)) :
    xs.mapM f = .ok (xs.map g) := by
  induction xs with
  | nil => rfl
  | cons x xs ih =>
    have hxs := ih fun y hy => h y (by simp [hy])
    rw [List.mapM_cons, h x (by simp), hxs]
    rfl

theorem forM_ok {f : α → Except ε PUnit} {xs : List α} (h : ∀ x ∈ xs, f x = .ok ⟨⟩) :
    xs.forM f = .ok ⟨⟩ := by
  induction xs with
  | nil => rfl
  | cons x xs ih =>
    have hxs := ih fun y hy => h y (by simp [hy])
    rw [List.forM, h x (by simp)]
    exact hxs

theorem mapM_ok_mem {f : α → Except ε β} {xs : List α} {ys : List β} (h : xs.mapM f = .ok ys) :
    ∀ x ∈ xs, ∃ y, f x = .ok y := by
  induction xs generalizing ys with
  | nil => simp
  | cons x xs ih =>
    rw [List.mapM_cons] at h
    obtain ⟨y, hy, hrest⟩ := bind_eq_ok.mp h
    obtain ⟨zs, hzs, _⟩ := bind_eq_ok.mp hrest
    intro z hz
    rcases List.mem_cons.mp hz with rfl | hz
    · exact ⟨y, hy⟩
    · exact ih hzs z hz

theorem mem_of_mapM_ok {f : α → Except ε β} {xs : List α} {ys : List β} (h : xs.mapM f = .ok ys) {x : α} {y : β}
    (hx : x ∈ xs) (hy : f x = .ok y) : y ∈ ys := by
  induction xs generalizing ys with
  | nil => exact absurd hx List.not_mem_nil
  | cons z xs ih =>
    rw [List.mapM_cons] at h
    obtain ⟨w, hw, hrest⟩ := bind_eq_ok.mp h
    obtain ⟨ws, hws, hys⟩ := bind_eq_ok.mp hrest
    obtain rfl := Except.ok.inj hys
    rcases List.mem_cons.mp hx with rfl | hx
    · obtain rfl := Except.ok.inj (hy.symm.trans hw)
      exact List.mem_cons_self
    · exact List.mem_cons_of_mem w (ih hws hx)

theorem mapM_forall {f : α → Except ε β} {P : β → Prop} {xs : List α} {ys : List β}
    (h : xs.mapM f = .ok ys) (hP : ∀ x y, x ∈ xs → f x = .ok y → P y) : ∀ y ∈ ys, P y := by
  induction xs generalizing ys with
  | nil =>
    obtain rfl := Except.ok.inj h
    simp
  | cons x xs ih =>
    rw [List.mapM_cons] at h
    obtain ⟨y, hy, hrest⟩ := bind_eq_ok.mp h
    obtain ⟨zs, hzs, hys⟩ := bind_eq_ok.mp hrest
    obtain rfl := Except.ok.inj hys
    intro z hz
    rcases List.mem_cons.mp hz with rfl | hz
    · exact hP x z (by simp) hy
    · exact ih hzs (fun w z hw hz => hP w z (by simp [hw]) hz) z hz

/-- What is done to each result is done to all of them. -/
theorem mapM_of_map {γ : Type} {f : α → Except ε β} {g : α → Except ε γ} {k : β → γ} {xs : List α}
    (h : ∀ x ∈ xs, g x = (f x).map k) : xs.mapM g = (xs.mapM f).map (List.map k) := by
  induction xs with
  | nil => rfl
  | cons x xs ih =>
    obtain ⟨hx, hxs⟩ := List.forall_mem_cons.mp h
    rw [List.mapM_cons, List.mapM_cons, hx, ih hxs]
    cases f x with
    | error e => rfl
    | ok y => cases xs.mapM f <;> rfl

theorem mapM_eq_ok_iff {f : α → Except ε β} {xs : List α} {ys : List β} :
    xs.mapM f = .ok ys ↔ List.Forall₂ (fun x y => f x = .ok y) xs ys := by
  induction xs generalizing ys with
  | nil => simp [eq_comm]
  | cons x xs ih =>
    rw [List.mapM_cons, bind_eq_ok, List.forall₂_cons_left_iff]
    constructor
    · rintro ⟨y, hy, hrest⟩
      obtain ⟨zs, hzs, hys⟩ := bind_eq_ok.mp hrest
      exact ⟨y, zs, hy, ih.mp hzs, (Except.ok.inj hys).symm⟩
    · rintro ⟨y, zs, hy, hzs, rfl⟩
      exact ⟨y, hy, bind_eq_ok.mpr ⟨zs, ih.mpr hzs, rfl⟩⟩

theorem exists_mapM_ok {f : α → Except ε β} {xs : List α} (h : ∀ x ∈ xs, ∃ y, f x = .ok y) :
    ∃ ys, xs.mapM f = .ok ys := by
  induction xs with
  | nil => exact ⟨[], rfl⟩
  | cons x xs ih =>
    obtain ⟨⟨y, hy⟩, hxs⟩ := List.forall_mem_cons.mp h
    obtain ⟨ys, hys⟩ := ih hxs
    exact ⟨y :: ys, mapM_eq_ok_iff.mpr (.cons hy (mapM_eq_ok_iff.mp hys))⟩

/-- Where all that fail do so for one reason, that is the reason of the whole. -/
theorem mapM_error (f : α → Except ε β) (e : ε) (xs : List α)
    (h : ∀ x ∈ xs, f x = .error e ∨ ∃ b, f x = .ok b) (hfails : ∃ x ∈ xs, f x = .error e) :
    xs.mapM f = .error e := by
  induction xs with
  | nil => simp at hfails
  | cons x xs ih =>
    rw [List.mapM_cons]
    rcases h x (by simp) with hx | ⟨b, hx⟩
    · rw [hx]
      rfl
    · have htail : ∃ y ∈ xs, f y = .error e := by
        obtain ⟨y, hy, hf⟩ := hfails
        rcases List.mem_cons.mp hy with rfl | hy
        · simp [hx] at hf
        · exact ⟨y, hy, hf⟩
      rw [hx, ok_bind, ih (fun y hy => h y (by simp [hy])) htail]
      rfl

theorem exists_mem_of_mapM_error {f : α → Except ε β} {e : ε} {xs : List α} (h : xs.mapM f = .error e) :
    ∃ x ∈ xs, f x = .error e := by
  induction xs with
  | nil => exact absurd h (by simp)
  | cons x xs ih =>
    rw [List.mapM_cons] at h
    cases hx : f x with
    | error d =>
      rw [hx] at h
      obtain rfl := Except.error.inj h
      exact ⟨x, by simp, hx⟩
    | ok b =>
      rw [hx, ok_bind] at h
      cases hxs : xs.mapM f with
      | ok bs =>
        rw [hxs] at h
        exact absurd h (by simp)
      | error d =>
        rw [hxs] at h
        obtain rfl := Except.error.inj h
        obtain ⟨y, hy, hfails⟩ := ih hxs
        exact ⟨y, List.mem_cons_of_mem x hy, hfails⟩

/-- Computations that fail alike on each element fail alike on all. -/
theorem mapM_error_congr (f g : α → Except ε β) (xs : List α)
    (h : ∀ x e, f x = .error e ↔ g x = .error e) (e : ε) :
    xs.mapM f = .error e ↔ xs.mapM g = .error e := by
  induction xs with
  | nil => simp
  | cons x xs ih =>
    rw [List.mapM_cons, List.mapM_cons]
    cases hf : f x with
    | error d => simp [(h x d).mp hf]
    | ok a =>
      cases hg : g x with
      | error d => simp [(h x d).mpr hg] at hf
      | ok b =>
        cases hfs : xs.mapM f <;> cases hgs : xs.mapM g <;> simp_all

end EntityStore.Outcome

namespace EntityStore.Reported

variable {α β : Type}

@[simp]
theorem outcome_bind (x : Reported α) (f : α → Reported β) :
    (x >>= f).outcome = x.outcome >>= fun a => (f a).outcome := by
  change (x.andThen f).outcome = _
  cases h : x.outcome <;> simp [andThen, h]

theorem outcome_map (x : Reported α) (f : α → β) : (f <$> x).outcome = x.outcome >>= fun a => .ok (f a) :=
  outcome_bind x fun a => pure (f a)

@[simp]
theorem outcome_ofExcept (x : Except Failure α) : (ofExcept x).outcome = x := rfl

@[simp]
theorem outcome_pure (a : α) : (pure a : Reported α).outcome = .ok a := rfl

@[simp]
theorem outcome_note (level : LogLevel) (message : String) : (note level message).outcome = .ok () := rfl

end EntityStore.Reported

import EntityStore.Proofs.Engine.Collection
import EntityStore.Proofs.Repository.StoredDocument
import Mathlib.Logic.Function.Basic

namespace EntityStore

section Lists

variable {α : Type} {p q : α → Bool} {new : α} {xs : List α}

theorem filter_replaceFirst_self {x : α} (hnew : p new = true) (h : xs.filter p = [x]) :
    (replaceFirst p new xs).filter p = [new] := by
  induction xs with
  | nil => simp at h
  | cons y xs ih =>
    rw [replaceFirst]
    by_cases hy : p y = true
    · rw [List.filter_cons_of_pos hy, List.cons.injEq] at h
      rw [if_pos hy, List.filter_cons_of_pos hnew, h.2]
    · rw [List.filter_cons_of_neg hy] at h
      rw [if_neg hy, List.filter_cons_of_neg hy, ih h]

theorem filter_replaceFirst_of_not (hnew : q new = false) (h : ∀ x, p x = true → q x = false) :
    (replaceFirst p new xs).filter q = xs.filter q := by
  induction xs with
  | nil => rfl
  | cons y xs ih =>
    rw [replaceFirst]
    by_cases hy : p y = true
    · rw [if_pos hy, List.filter_cons_of_neg (by simp [hnew]), List.filter_cons_of_neg (by simp [h y hy])]
    · rw [if_neg hy, List.filter_cons, List.filter_cons, ih]

theorem filter_eraseP_self : (xs.eraseP p).filter p = (xs.filter p).tail := by
  induction xs with
  | nil => rfl
  | cons y xs ih =>
    by_cases hy : p y = true
    · rw [List.eraseP_cons_of_pos hy, List.filter_cons_of_pos hy, List.tail_cons]
    · rw [List.eraseP_cons_of_neg hy, List.filter_cons_of_neg hy, List.filter_cons_of_neg hy, ih]

theorem filter_eraseP_of_not (h : ∀ x, p x = true → q x = false) :
    (xs.eraseP p).filter q = xs.filter q := by
  induction xs with
  | nil => rfl
  | cons y xs ih =>
    by_cases hy : p y = true
    · rw [List.eraseP_cons_of_pos hy, List.filter_cons_of_neg (by simp [h y hy])]
    · rw [List.eraseP_cons_of_neg hy, List.filter_cons, List.filter_cons, ih]

end Lists

def Document.hasIdentity (field : String) (k : IdentityKey) (d : Document) : Bool :=
  (d.stored? field).getD .null == k.value

/-- The flat documents of the entities that are stored, by their identities. -/
abbrev EntityMap := IdentityKey → Option Document

namespace Mapping

variable {m : Mapping} {field : String} {k l : IdentityKey} {flat d : Document} {ds : List Document}
  {s : EntityMap}

theorem Identifies.hasIdentity (h : m.Identifies field k d) : d.hasIdentity field k = true := by
  obtain ⟨v, hv, hk⟩ := h.identity
  rw [Document.hasIdentity, hv]
  exact hk

theorem hasIdentity_of_ne (h : d.hasIdentity field k = true) (hne : l ≠ k) :
    d.hasIdentity field l = false := by
  cases hl : d.hasIdentity field l with
  | false => rfl
  | true => exact absurd (IdentityKey.eq_of_beq hl h) hne

/-- The query for what equals an identity selects the documents of that identity. -/
theorem isSelected_eq_hasIdentity {v : Value} (h : (v == k.value) = true) :
    (fun d => Document.isSelected (.single field v) d) = Document.hasIdentity field k := by
  funext d
  rw [Document.isSelected_atom field (IdentityKey.isAtom_of_beq h), IdentityKey.beq_congr h]
  rfl

/-- Whether documents keep an entity under an identity, in a single one of them, or none. -/
def KeepsAt (m : Mapping) (field : String) (k : IdentityKey) (ds : List Document) :
    Option Document → Prop
  | none => ds.filter (Document.hasIdentity field k) = []
  | some flat => ∃ d, ds.filter (Document.hasIdentity field k) = [d] ∧ m.Stores field k flat d

/-- Whether documents keep just the entities of a map. -/
def Keeps (m : Mapping) (field : String) (ds : List Document) (s : EntityMap) : Prop :=
  ∀ k, m.KeepsAt field k ds (s k)

theorem keeps_nil (m : Mapping) (field : String) : m.Keeps field [] fun _ => none := fun _ => rfl

theorem KeepsAt.congr {es : List Document} {x : Option Document} (h : m.KeepsAt field k ds x)
    (heq : es.filter (Document.hasIdentity field k) = ds.filter (Document.hasIdentity field k)) :
    m.KeepsAt field k es x := by
  cases x with
  | none => exact heq.trans h
  | some flat =>
    obtain ⟨d, hd, hstores⟩ := h
    exact ⟨d, heq.trans hd, hstores⟩

theorem KeepsAt.length_le {x : Option Document} (h : m.KeepsAt field k ds x) :
    (ds.filter (Document.hasIdentity field k)).length ≤ 1 := by
  cases x with
  | none => simp [show ds.filter (Document.hasIdentity field k) = [] from h]
  | some flat =>
    obtain ⟨d, hd, _⟩ := h
    simp [hd]

theorem Keeps.find?_none (hs : m.Keeps field ds s) (hnone : s k = none) :
    ds.find? (Document.hasIdentity field k) = none := by
  have hk := hs k
  rw [hnone] at hk
  rw [← List.head?_filter, show ds.filter (Document.hasIdentity field k) = [] from hk]
  rfl

theorem Keeps.find?_some (hs : m.Keeps field ds s) (hsome : s k = some flat) :
    ∃ d, ds.find? (Document.hasIdentity field k) = some d ∧ m.Stores field k flat d := by
  have hk := hs k
  rw [hsome] at hk
  obtain ⟨d, hd, hstores⟩ := hk
  exact ⟨d, by rw [← List.head?_filter, hd]; rfl, hstores⟩

/-- Documents that change at one identity only keep the map that changes there. -/
theorem Keeps.update {es : List Document} {x : Option Document} (hs : m.Keeps field ds s)
    (hk : m.KeepsAt field k es x)
    (hothers : ∀ l, l ≠ k → es.filter (Document.hasIdentity field l) =
      ds.filter (Document.hasIdentity field l)) : m.Keeps field es (Function.update s k x) := by
  intro l
  by_cases hl : l = k
  · subst hl
    rw [Function.update_self]
    exact hk
  · rw [Function.update_of_ne hl]
    exact (hs l).congr (hothers l hl)

theorem Keeps.append (hs : m.Keeps field ds s) (hnone : s k = none) (hd : m.Stores field k flat d) :
    m.Keeps field (ds ++ [d]) (Function.update s k (some flat)) := by
  have hhas := hd.hasIdentity
  apply hs.update
  · have hbefore : ds.filter (Document.hasIdentity field k) = [] := by
      have hk := hs k
      rwa [hnone] at hk
    exact ⟨d, by rw [List.filter_append, hbefore, List.filter_cons_of_pos hhas]; rfl, hd⟩
  · intro l hl
    rw [List.filter_append, List.filter_cons_of_neg (by simp [hasIdentity_of_ne hhas hl])]
    simp

theorem Keeps.replaceFirst {old : Document} (hs : m.Keeps field ds s) (hold : s k = some old)
    (hd : m.Stores field k flat d) :
    m.Keeps field (EntityStore.replaceFirst (Document.hasIdentity field k) d ds)
      (Function.update s k (some flat)) := by
  have hhas := hd.hasIdentity
  apply hs.update
  · have hk := hs k
    rw [hold] at hk
    obtain ⟨before, hbefore, _⟩ := hk
    exact ⟨d, filter_replaceFirst_self hhas hbefore, hd⟩
  · intro l hl
    exact filter_replaceFirst_of_not (hasIdentity_of_ne hhas hl) fun e he => hasIdentity_of_ne he hl

theorem Keeps.eraseP (hs : m.Keeps field ds s) (k : IdentityKey) :
    m.Keeps field (ds.eraseP (Document.hasIdentity field k)) (Function.update s k none) := by
  apply hs.update
  · rw [KeepsAt, filter_eraseP_self]
    have hk := hs k
    cases hx : s k with
    | none =>
      rw [hx] at hk
      rw [show ds.filter (Document.hasIdentity field k) = [] from hk]
      rfl
    | some flat =>
      rw [hx] at hk
      obtain ⟨d, hd, _⟩ := hk
      rw [hd]
      rfl
  · intro l hl
    exact filter_eraseP_of_not fun e he => hasIdentity_of_ne he hl

end Mapping

end EntityStore

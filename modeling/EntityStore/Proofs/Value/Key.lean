import EntityStore.Proofs.Dictionary
import EntityStore.Proofs.Value.Equality

namespace EntityStore

/-- Whether equality to a value does not tell equal values apart, and makes values equal to each other. -/
structure Value.IsKey (k : Value) : Prop where
  congr : ∀ {u v : Value}, (u == v) = true → (u == k) = (v == k)
  unique : ∀ {u v : Value}, (u == k) = true → (v == k) = true → (u == v) = true

namespace Value

theorem isKey_text (s : String) : (Value.text s).IsKey := by
  constructor
  · intro u v huv
    rw [Bool.eq_iff_iff]
    constructor
    · intro hu
      rw [(beq_text u s).mp hu] at huv
      exact (beq_text v s).mpr ((text_beq s v).mp huv)
    · intro hv
      rwa [(beq_text v s).mp hv] at huv
  · intro u v hu hv
    rw [(beq_text u s).mp hu, (beq_text v s).mp hv]
    exact text_beq_text s s ▸ beq_self_eq_true s

/-- What equals a value that is no number is no number. -/
theorem quantity?_eq_none_of_beq {u v : Value} (h : (u == v) = true) (hv : v.quantity? = none) :
    u.quantity? = none := by
  change sameIn false false u v = true at h
  cases u with
  | bool _ | int _ | float _ => cases v <;> simp_all [sameIn, sameAtom, quantity?]
  | _ => rfl

/-- A number is a key, also one that is undefined: nothing equals that. -/
theorem isKey_number {k : Value} {q : Quantity} (hk : k.quantity? = some q) : k.IsKey := by
  have hequal {u v : Value} {b : Quantity} (hv : v.quantity? = some b) (huv : (u == v) = true) :
      ∃ a, u.quantity? = some a ∧ a.same b = true := by
    rw [beq_number hv] at huv
    cases ha : u.quantity? with
    | none => simp [ha] at huv
    | some a => exact ⟨a, rfl, by simpa [ha] using huv⟩
  constructor
  · intro u v huv
    rw [beq_number hk, beq_number hk]
    cases hv : v.quantity? with
    | none => rw [quantity?_eq_none_of_beq huv hv]
    | some b =>
      obtain ⟨a, ha, hab⟩ := hequal hv huv
      rw [ha, Option.map_some, Option.map_some, a.same_comm q, b.same_comm q, Quantity.same_congr hab q]
  · intro u v hu hv
    obtain ⟨a, ha, haq⟩ := hequal hk hu
    obtain ⟨b, hb, hbq⟩ := hequal hk hv
    rw [beq_number hb, ha]
    exact Quantity.same_trans haq (b.same_comm q ▸ hbq)

end Value

namespace Dictionary

variable {α : Type} {key : Value} (hkey : key.IsKey)
include hkey

theorem get?_insert (other : Value) (v : α) (d : Dictionary Value α) :
    get? key (insert other v d) = if (other == key) = true then some v else get? key d := by
  induction d with
  | nil => rfl
  | cons p d ih =>
    rw [insert]
    split
    · next hother =>
      rw [get?, get?, hkey.congr hother]
      split <;> rfl
    · next hother =>
      rw [get?, get?, ih]
      -- Two keys that are not the same cannot both be the key that is looked up.
      by_cases hp : (p.1 == key) = true
      · rw [if_pos hp, if_pos hp]
        split
        · next hsame => exact absurd (hkey.unique hp hsame) hother
        · rfl
      · rw [if_neg hp, if_neg hp]

/-- What is merged into a dictionary comes before what it holds. -/
theorem get?_insertMany {entries : Dictionary Value α} (hentries : entries.Pairwise fun p q => (p.1 == q.1) = false)
    (d : Dictionary Value α) : get? key (insertMany d entries) = (get? key entries).or (get? key d) := by
  induction entries generalizing d with
  | nil => rfl
  | cons p entries ih =>
    obtain ⟨hp, hrest⟩ := List.pairwise_cons.mp hentries
    have hstep : insertMany d (p :: entries) = insertMany (insert p.1 p.2 d) entries := rfl
    rw [hstep, ih hrest, get?_insert hkey, get?]
    split
    · next hfirst =>
      have hnone : get? key entries = none := by
        refine Option.eq_none_iff_forall_ne_some.mpr fun w hw => ?_
        obtain ⟨k, hk, hmem⟩ := exists_mem_of_get? hw
        have hsame : (p.1 == k) = true := hkey.unique hfirst hk
        rw [hp _ hmem] at hsame
        exact Bool.noConfusion hsame
      rw [hnone]
      rfl
    · rfl

end Dictionary

end EntityStore

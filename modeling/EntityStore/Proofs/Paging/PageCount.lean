import EntityStore.Paging.Page
import EntityStore.Proofs.Number.Quotient
import Mathlib.Algebra.Order.Floor.Div

namespace EntityStore

namespace PageCount

open Magnitude

/-- How many elements stand on the last of the pages that are filled, which are `total ⌈/⌉ size`. -/
def lastPart (total size : Nat) : Nat := total - (total ⌈/⌉ size - 1) * size

/-- Whether the number of pages filled is a multiple of the last place that fifty-three bits leave for the quotient. -/
def FitsBits (total size : Nat) : Prop := ∀ e, size * 2 ^ (52 + e) ≤ total → 2 ^ e ∣ total ⌈/⌉ size

/-- Whether rounding the quotient leaves the last page in the count. It does if the quotient is too large to have
places behind the point, and otherwise if the share of the last page that is filled comes to more than half of some
place that fifty-three bits leave for the quotient, or to one half where the number of pages is even. -/
def KeepsLast (total size : Nat) : Prop :=
  total = 0 ∨ size * 2 ^ 53 ≤ total ∨ (size = 2 * lastPart total size ∧ 2 ∣ total ⌈/⌉ size) ∨
    ∃ t, t ≤ 1074 ∧ total * 2 ^ t < size * 2 ^ 53 ∧ size < 2 ^ (t + 1) * lastPart total size

/-- What the number of pages that are counted tells about the elements. -/
structure Counts (total size pages : Nat) : Prop where
  /-- Just the pages that are filled are counted if they fit into the bits and the last one is kept. -/
  eq_iff : pages = total ⌈/⌉ size ↔ FitsBits total size ∧ KeepsLast total size
  /-- A last page that is not kept is the only one missing. -/
  lost : ¬KeepsLast total size → pages + 1 = total ⌈/⌉ size
  /-- Numbers of more than fifty-three bits are rounded to multiples of their last place. -/
  rounded : ∀ e, 1 ≤ e → size * 2 ^ (52 + e) ≤ total → total < size * 2 ^ (53 + e) →
    pages = roundDiv total (size * 2 ^ e) * 2 ^ e
  /-- No pages are counted for no elements, and for elements that fill next to nothing of a page. -/
  eq_zero_iff : pages = 0 ↔ total = 0 ∨ total * 2 ^ 1075 ≤ size
  /-- Every page can tell whether elements follow it if the count is right, or if it misses the only page. -/
  next_iff : (∀ p, 1 ≤ p → (p < pages ↔ p * size < total)) ↔ pages = total ⌈/⌉ size ∨ pages = 0

section
variable {total size pages : Nat}

theorem lt_ceilDiv_iff (hsize : 0 < size) {p : Nat} : p < total ⌈/⌉ size ↔ p * size < total := by
  rw [← Nat.not_le, ceilDiv_le_iff_le_mul hsize, Nat.not_le, Nat.mul_comm]

/-- Some elements fill some pages and a part of one more. -/
theorem exists_lastPart (htotal : 0 < total) (hsize : 0 < size) :
    ∃ full, total ⌈/⌉ size = full + 1 ∧ total = full * size + lastPart total size ∧
      0 < lastPart total size ∧ lastPart total size ≤ size := by
  have hpos : 0 < total ⌈/⌉ size := (lt_ceilDiv_iff hsize).mpr (by omega)
  obtain ⟨full, hfull⟩ := Nat.exists_eq_add_of_le' hpos
  have hbefore : full * size < total := (lt_ceilDiv_iff hsize).mp (by omega)
  have hall : ¬(full + 1) * size < total := by
    rw [← lt_ceilDiv_iff hsize]
    omega
  have hpart : lastPart total size = total - full * size := by rw [lastPart, hfull, Nat.add_sub_cancel]
  rw [Nat.succ_mul] at hall
  exact ⟨full, hfull, by omega, by omega, by omega⟩

theorem next_iff_of (hsize : 0 < size) (hzero : total = 0 → pages = 0) (hnone : pages = 0 → total ≤ size) :
    (∀ p, 1 ≤ p → (p < pages ↔ p * size < total)) ↔ pages = total ⌈/⌉ size ∨ pages = 0 := by
  have hneeded (p : Nat) : p < total ⌈/⌉ size ↔ p * size < total := lt_ceilDiv_iff hsize
  constructor
  · intro hnext
    by_contra! hne
    obtain ⟨hwrong, hsome⟩ := hne
    rcases Nat.lt_or_gt_of_ne hwrong with hless | hmore
    · have hlast := (hnext pages (by omega)).mpr ((hneeded pages).mp hless)
      omega
    · have hpos : 0 < total ⌈/⌉ size := by
        rw [hneeded, Nat.zero_mul]
        exact Nat.pos_of_ne_zero fun h => hsome (hzero h)
      have hlast := (hneeded _).mpr ((hnext (total ⌈/⌉ size) hpos).mp hmore)
      omega
  · rintro (rfl | rfl) p hp
    · exact hneeded p
    · have hone : 1 * size ≤ p * size := Nat.mul_le_mul_right size hp
      have hfew := hnone rfl
      omega

theorem counts_zero (hsize : 0 < size) : Counts 0 size 0 := by
  have hnone : (0 : Nat) ⌈/⌉ size = 0 := zero_ceilDiv size
  have hpow (e : Nat) : 0 < size * 2 ^ e := Nat.mul_pos hsize (Nat.two_pow_pos e)
  constructor
  · refine iff_of_true hnone.symm ⟨fun e h => ?_, .inl rfl⟩
    rw [hnone]
    exact Nat.dvd_zero _
  · intro hlost
    exact absurd (.inl rfl) hlost
  · intro e _ hlow
    have hnever := hpow (52 + e)
    omega
  · exact iff_of_true rfl (.inl rfl)
  · exact next_iff_of hsize (fun _ => rfl) (fun _ => Nat.zero_le size)

/-- Whether rounding to some places behind the point keeps what is left over. -/
theorem rest_kept_iff {full rest t : Nat} (hsize : 0 < size) :
    full * 2 ^ t < roundDiv ((full * size + rest) * 2 ^ t) size ↔
      size < 2 ^ (t + 1) * rest ∨ (size = 2 ^ (t + 1) * rest ∧ full * 2 ^ t % 2 = 1) := by
  have hleft : (2 * (full * 2 ^ t) + 1) * size = 2 * (full * size * 2 ^ t) + size := by ring
  have hright : 2 * ((full * size + rest) * 2 ^ t) = 2 * (full * size * 2 ^ t) + 2 ^ (t + 1) * rest := by ring
  rw [lt_roundDiv_iff hsize, hleft, hright]
  omega

/-- The last page is kept just if rounding to the places that the quotient has keeps it. -/
theorem keepsLast_iff {t full : Nat} (htotal : 0 < total) (hfew : total < size * 2 ^ 53)
    (hplaces : HasPlaces total size t) (hfull : total ⌈/⌉ size = full + 1) (hrest : 0 < lastPart total size) :
    KeepsLast total size ↔ size < 2 ^ (t + 1) * lastPart total size ∨
      (size = 2 ^ (t + 1) * lastPart total size ∧ full * 2 ^ t % 2 = 1) := by
  constructor
  · rintro (hnone | hmany | ⟨hhalf, heven⟩ | ⟨u, hle, hfits, hkept⟩)
    · omega
    · omega
    · cases t with
      | zero => exact .inr ⟨by omega, by omega⟩
      | succ t =>
        left
        have hpow : 2 ^ 2 * lastPart total size ≤ 2 ^ (t + 1 + 1) * lastPart total size :=
          Nat.mul_le_mul_right _ (Nat.pow_le_pow_right (by decide) (by omega))
        omega
    · left
      have hle' : u ≤ t := hplaces.le_of_fits hle hfits
      have hpow : 2 ^ (u + 1) * lastPart total size ≤ 2 ^ (t + 1) * lastPart total size :=
        Nat.mul_le_mul_right _ (Nat.pow_le_pow_right (by decide) (by omega))
      omega
  · rintro (hkept | ⟨hhalf, hodd⟩)
    · exact .inr (.inr (.inr ⟨t, hplaces.le, hplaces.fits, hkept⟩))
    · -- A number of pages is odd in its last place only if this is the place of the ones.
      cases t with
      | zero => exact .inr (.inr (.inl ⟨by omega, by omega⟩))
      | succ t =>
        have heven : full * 2 ^ (t + 1) = 2 * (full * 2 ^ t) := by ring
        omega

-- The pages are counted by rounding the quotient to some places behind the point.
section
variable {t : Nat} (hpages : ∀ k, k < pages ↔ k * 2 ^ t < roundDiv (total * 2 ^ t) size)
include hpages

theorem pages_le (hsize : 0 < size) {k : Nat} (h : total ≤ k * size) : pages ≤ k := by
  by_contra hmore
  have hlt := (hpages k).mp (Nat.lt_of_not_le hmore)
  have hle : roundDiv (total * 2 ^ t) size ≤ k * 2 ^ t := by
    apply roundDiv_le hsize
    calc total * 2 ^ t ≤ k * size * 2 ^ t := Nat.mul_le_mul_right _ h
      _ = k * 2 ^ t * size := by ring
  omega

theorem le_pages (hsize : 0 < size) {k : Nat} (h : k * size ≤ total) : k ≤ pages := by
  cases k with
  | zero => exact Nat.zero_le pages
  | succ k =>
    refine (hpages k).mpr (lt_roundDiv hsize ?_)
    have hnext : (k + 1) * size * 2 ^ t ≤ total * 2 ^ t := Nat.mul_le_mul_right _ h
    have hleft : (2 * (k * 2 ^ t) + 1) * size = 2 * (k * size * 2 ^ t) + size := by ring
    have hright : (k + 1) * size * 2 ^ t = k * size * 2 ^ t + size * 2 ^ t := by ring
    have hpow : size * 1 ≤ size * 2 ^ t := Nat.mul_le_mul_left size (Nat.two_pow_pos t)
    omega

theorem eq_zero_iff_places (htotal : 0 < total) (hsize : 0 < size) (hplaces : HasPlaces total size t) :
    pages = 0 ↔ total = 0 ∨ total * 2 ^ 1075 ≤ size := by
  have hsome := hpages 0
  rw [lt_roundDiv_iff hsize] at hsome
  have hshift : 2 * (total * 2 ^ t) = total * 2 ^ (t + 1) := by ring
  have hnone : pages = 0 ↔ total * 2 ^ (t + 1) ≤ size := by omega
  rw [hnone]
  rcases hplaces.most with hall | hmost
  · have hexponent : t + 1 = 1075 := by omega
    rw [hexponent]
    exact ⟨.inr, fun h => h.resolve_left (by omega)⟩
  · -- Before the least place the bits still hold the first place of any quotient.
    have hpow : total * 2 ^ (t + 1) ≤ total * 2 ^ 1075 := by
      apply mul_twoPow_le
      have hle := hplaces.le
      omega
    exact iff_of_false (by omega) (by omega)

/-- Quotients with places behind the point lose the last page at most. -/
theorem counts_places (htotal : 0 < total) (hsize : 0 < size) (hfew : total < size * 2 ^ 53)
    (hplaces : HasPlaces total size t) : Counts total size pages := by
  obtain ⟨full, hfull, hsplit, hrest, hpart⟩ := exists_lastPart htotal hsize
  have hlast : full < pages ↔ KeepsLast total size := by
    rw [hpages, keepsLast_iff htotal hfew hplaces hfull hrest]
    conv_lhs => rw [hsplit]
    exact rest_kept_iff hsize
  have hatMost : pages ≤ full + 1 := by
    apply pages_le hpages hsize
    rw [Nat.succ_mul]
    omega
  have hatLeast : full ≤ pages := le_pages hpages hsize (by omega)
  have hzero := eq_zero_iff_places hpages htotal hsize hplaces
  have hno {e : Nat} (he : 1 ≤ e) : ¬size * 2 ^ (52 + e) ≤ total := by
    have hpow : size * 2 ^ 53 ≤ size * 2 ^ (52 + e) := mul_twoPow_le size (by omega)
    omega
  have hfits : FitsBits total size := by
    intro e he
    cases e with
    | zero => exact Nat.one_dvd _
    | succ e => exact absurd he (hno (by omega))
  constructor
  · rw [hfull, ← hlast, and_iff_right hfits]
    omega
  · intro hlost
    rw [← hlast] at hlost
    omega
  · intro e he hlow
    exact absurd hlow (hno he)
  · exact hzero
  · refine next_iff_of hsize (by omega) fun hnone => ?_
    exact le_of_mul_twoPow_le ((hzero.mp hnone).resolve_left (by omega))

end

/-- Where the pages that are filled are a multiple of the last place, they are the nearest one. -/
theorem roundDiv_mul_of_dvd {e : Nat} (htotal : 0 < total) (hsize : 0 < size) (he : 1 ≤ e)
    (h : 2 ^ e ∣ total ⌈/⌉ size) : roundDiv total (size * 2 ^ e) * 2 ^ e = total ⌈/⌉ size := by
  obtain ⟨full, hfull, hsplit, hrest, hpart⟩ := exists_lastPart htotal hsize
  obtain ⟨c, hc⟩ := h
  have hstep : 0 < size * 2 ^ e := Nat.mul_pos hsize (Nat.two_pow_pos e)
  have hfilled : c * (size * 2 ^ e) = full * size + size := by
    calc c * (size * 2 ^ e) = 2 ^ e * c * size := by ring
      _ = full * size + size := by rw [← hc, hfull, Nat.succ_mul]
  have hatMost : roundDiv total (size * 2 ^ e) ≤ c := roundDiv_le hstep (by omega)
  have hatLeast : c ≤ roundDiv total (size * 2 ^ e) := by
    cases c with
    | zero => exact Nat.zero_le _
    | succ c =>
      apply lt_roundDiv hstep
      -- What the last page lacks is less than a page, and so less than half of the last place.
      have hhalf : size * 2 ^ 1 ≤ size * 2 ^ e := mul_twoPow_le size he
      have hdouble : (2 * c + 1) * (size * 2 ^ e) + size * 2 ^ e = 2 * ((c + 1) * (size * 2 ^ e)) := by ring
      omega
  rw [hc, Nat.le_antisymm hatMost hatLeast, Nat.mul_comm]

/-- Quotients without places behind the point are rounded to multiples of their last place. -/
theorem counts_whole {e : Nat} (hsize : 0 < size) (he : 1 ≤ e) (hlow : size * 2 ^ (52 + e) ≤ total)
    (hhigh : total < size * 2 ^ (53 + e)) : Counts total size (roundDiv total (size * 2 ^ e) * 2 ^ e) := by
  have hmany : size * 2 ^ 53 ≤ total := Nat.le_trans (mul_twoPow_le size (by omega)) hlow
  have hkeeps : KeepsLast total size := .inr (.inl hmany)
  have hplace {d : Nat} (hd : size * 2 ^ (52 + d) ≤ total) : d ≤ e := by
    by_contra hmore
    have hpow : size * 2 ^ (53 + e) ≤ size * 2 ^ (52 + d) := mul_twoPow_le size (by omega)
    omega
  have hsome : roundDiv total (size * 2 ^ e) * 2 ^ e ≠ 0 := by
    have hstep : 0 < size * 2 ^ e := Nat.mul_pos hsize (Nat.two_pow_pos e)
    have hwide : size * 2 ^ (52 + e) = 2 ^ 52 * (size * 2 ^ e) := by ring
    have hpos : 0 < roundDiv total (size * 2 ^ e) := lt_roundDiv hstep (by omega)
    exact Nat.ne_of_gt (Nat.mul_pos hpos (Nat.two_pow_pos e))
  constructor
  · constructor
    · intro heq
      refine ⟨fun d hd => ?_, hkeeps⟩
      rw [← heq]
      exact Nat.dvd_mul_left_of_dvd (Nat.pow_dvd_pow 2 (hplace hd)) _
    · rintro ⟨hfits, -⟩
      exact roundDiv_mul_of_dvd (by omega) hsize he (hfits e hlow)
  · intro hlost
    exact absurd hkeeps hlost
  · intro d hd hlow' hhigh'
    have hsame : d = e := by
      apply Nat.le_antisymm (hplace hlow')
      by_contra hless
      have hpow : size * 2 ^ (53 + d) ≤ size * 2 ^ (52 + e) := mul_twoPow_le size (by omega)
      omega
    rw [hsame]
  · refine iff_of_false hsome ?_
    rintro (hnone | hfew)
    · omega
    · have hless := le_of_mul_twoPow_le hfew
      omega
  · exact next_iff_of hsize (by omega) fun hnone => absurd hnone hsome

end

/-- The ceiling of a quotient counts the pages, unless the quotient lies beyond the largest number. -/
theorem ceil_counts (total : Nat) {size : Int} (hsize : 1 ≤ size) :
    (IsBeyond total size.toNat ∧ Quotient.ceil total size = .error .quotientOverflow) ∨
      (¬IsBeyond total size.toNat ∧ ∃ pages : Nat,
        Quotient.ceil total size = .ok (pages : Int) ∧ Counts total size.toNat pages) := by
  have hpos : 0 < size.toNat := by omega
  rw [Quotient.ceil_natCast total hsize]
  rcases Nat.eq_zero_or_pos total with rfl | htotal
  · have hnot : ¬IsBeyond 0 size.toNat := not_isBeyond_of_lt (Nat.mul_pos hpos (Nat.two_pow_pos 53))
    have hx : nearest? 0 size.toNat = some ⟨0, leastExponent⟩ := rfl
    rw [hx]
    simp only
    rw [ceil_zero]
    exact .inr ⟨hnot, 0, rfl, counts_zero hpos⟩
  rcases Nat.lt_or_ge total (size.toNat * 2 ^ 53) with hfew | hmany
  · obtain ⟨t, x, hplaces, hx, hceil⟩ := exists_nearest_places htotal hpos hfew
    rw [hx]
    exact .inr ⟨not_isBeyond_of_lt hfew, x.ceil, rfl, counts_places hceil htotal hpos hfew hplaces⟩
  · obtain ⟨e, he, hlow, hhigh, ⟨hbeyond, hx⟩ | ⟨hnot, x, hx, hceil⟩⟩ := exists_nearest_whole htotal hpos hmany
    · rw [hx]
      exact .inl ⟨hbeyond, rfl⟩
    · rw [hx]
      refine .inr ⟨hnot, x.ceil, rfl, ?_⟩
      rw [hceil]
      exact counts_whole hpos he hlow hhigh

end PageCount

variable {α : Type}

open PageCount Magnitude in
/-- How many pages a request counts for any number of elements, and what each of these pages tells: there is no count
for a quotient beyond the largest floating-point number, and otherwise it is what `Counts` says. -/
theorem PageRequest.totalPages_counts (r : PageRequest) (hsize : 1 ≤ r.size) (total : Nat) (content : List α) :
    (IsBeyond total r.size.toNat ∧ r.totalPages total = .error .quotientOverflow) ∨
      (¬IsBeyond total r.size.toNat ∧ ∃ pages : Nat,
        r.totalPages total = .ok (pages : Int) ∧ Counts total r.size.toNat pages ∧
          ∀ p : Int, ∃ page, Page.ofRequest content (.int total) (r.setNumber p) = .ok page ∧
            page.content = content ∧ page.pages = pages ∧ (page.hasNext = true ↔ p < pages)) := by
  rcases ceil_counts total hsize with hbeyond | ⟨hnot, pages, hpages, hcounts⟩
  · exact .inl hbeyond
  · refine .inr ⟨hnot, pages, hpages, hcounts, fun p => ?_⟩
    have hcount : (r.setNumber p).pagesFor (.int total) = .ok (pages : Int) := hpages
    refine ⟨Page.requested content (.int total) pages (r.setNumber p), ?_, rfl, rfl, decide_eq_true_iff⟩
    rw [Page.ofRequest, hcount]
    rfl

/-- Requests for pages of so many elements that one more makes no difference to the quotient. -/
def PageRequest.hugePages : PageRequest := ⟨1, 2 ^ 53, none, .absent, none, none⟩

open PageCount Magnitude in
/-- One element more than the first page holds is lost: two pages are filled, of which one is counted. -/
theorem PageRequest.totalPages_counts_hugePages :
    1 ≤ hugePages.size ∧ ¬IsBeyond (2 ^ 53 + 1) hugePages.size.toNat ∧
      hugePages.totalPages (2 ^ 53 + 1 : Nat) = .ok 1 ∧ Counts (2 ^ 53 + 1) hugePages.size.toNat 1 ∧
      (2 ^ 53 + 1) ⌈/⌉ hugePages.size.toNat = 2 := by
  have hsize : 1 ≤ hugePages.size := by decide
  have hone : hugePages.totalPages (2 ^ 53 + 1 : Nat) = .ok 1 := by decide +kernel
  have hnot : ¬IsBeyond (2 ^ 53 + 1) hugePages.size.toNat := not_isBeyond_of_lt (by decide)
  obtain ⟨hbeyond, -⟩ | ⟨-, pages, hpages, hcounts, -⟩ :=
    hugePages.totalPages_counts hsize (2 ^ 53 + 1) ([] : List Nat)
  · exact absurd hbeyond hnot
  · have hsame : pages = 1 := by
      rw [hone] at hpages
      injection hpages with hpages
      omega
    rw [hsame] at hcounts
    exact ⟨hsize, hnot, hone, hcounts, by decide +kernel⟩

end EntityStore

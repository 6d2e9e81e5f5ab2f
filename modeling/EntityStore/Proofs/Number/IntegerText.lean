import EntityStore.Number.IntegerText
import Mathlib.Data.List.TakeWhile

namespace EntityStore.IntegerText

open Numeral

/-- Whether a character is a digit of any script. -/
def IsDigit (c : Char) : Prop := (digitValue? c).isSome = true

/-- One digit or more, with at most one underscore between each two. -/
inductive IsRow : List Char → Prop
  | last {c : Char} (hc : IsDigit c) : IsRow [c]
  | next {c : Char} {cs : List Char} (hc : IsDigit c) (hcs : IsRow cs) : IsRow (c :: cs)
  | apart {c : Char} {cs : List Char} (hc : IsDigit c) (hcs : IsRow cs) : IsRow (c :: '_' :: cs)

/-- Whether characters write an integer that is not too long. -/
def IsNumeral (cs : List Char) : Prop :=
  ∃ before sign row behind, cs = before ++ (sign ++ (row ++ behind)) ∧ (∀ c ∈ before, isBlank c = true) ∧
    (sign = [] ∨ sign = ['+'] ∨ sign = ['-']) ∧ IsRow row ∧ (row.filterMap digitValue?).length ≤ mostDigits ∧
    ∀ c ∈ behind, isBlank c = true

variable {c : Char} {cs row : List Char}

theorem digitValue?_of_isBlank (h : isBlank c = true) : digitValue? c = none := by
  have hcodes : ∀ n ∈ 32 :: 9 :: 10 :: 11 :: 12 :: 13 :: wideBlanks, ∀ z ∈ zeros, ¬(z ≤ n ∧ n < z + 10) := by
    decide +kernel
  have hcode : c.toNat ∈ 32 :: 9 :: 10 :: 11 :: 12 :: 13 :: wideBlanks := by
    simp only [isBlank, Bool.or_eq_true, beq_iff_eq, Bool.and_eq_true, decide_eq_true_eq, List.contains_iff_mem] at h
    rcases h with (rfl | hlow) | hwide
    · exact List.mem_cons_self
    · simp only [List.mem_cons]
      omega
    · simp [hwide]
  rw [digitValue?, Option.map_eq_none_iff, List.find?_eq_none]
  intro z hz
  simpa using hcodes _ hcode z hz

theorem isInRow_of_isBlank (h : isBlank c = true) : isInRow c = false := by
  have hunderscore : c ≠ '_' := by
    rintro rfl
    exact absurd h (by decide)
  rw [isInRow, digitValue?_of_isBlank h]
  simpa using hunderscore

theorem IsDigit.isInRow (h : IsDigit c) : isInRow c = true := by
  rw [IntegerText.isInRow, h, Bool.or_true]

theorem IsDigit.ne {d : Char} (h : IsDigit c) (hd : digitValue? d = none) : c ≠ d := by
  rintro rfl
  rw [IsDigit, hd] at h
  exact Bool.noConfusion h

theorem IsDigit.isBlank (h : IsDigit c) : isBlank c = false := by
  rw [Bool.eq_false_iff]
  exact fun hblank => h.ne (digitValue?_of_isBlank hblank) rfl

theorem isDigit_of_isInRow (h : isInRow c = true) (hc : c ≠ '_') : IsDigit c := by
  simpa [isInRow, hc, IsDigit] using h

theorem digitValue?_underscore : digitValue? '_' = none := by decide +kernel

theorem IsRow.exists_cons (h : IsRow row) : ∃ c cs, row = c :: cs ∧ IsDigit c := by
  cases h with
  | last hc | next hc _ | apart hc _ => exact ⟨_, _, rfl, hc⟩

theorem IsRow.all_isInRow (h : IsRow row) : ∀ c ∈ row, isInRow c = true := by
  induction h with
  | last hc => simpa using hc.isInRow
  | next hc _ ih => exact List.forall_mem_cons.mpr ⟨hc.isInRow, ih⟩
  | apart hc _ ih =>
    exact List.forall_mem_cons.mpr ⟨hc.isInRow, List.forall_mem_cons.mpr ⟨rfl, ih⟩⟩

theorem IsRow.filterMap_ne_nil (h : IsRow row) : row.filterMap digitValue? ≠ [] := by
  obtain ⟨c, cs, rfl, hc⟩ := h.exists_cons
  obtain ⟨d, hd⟩ := Option.isSome_iff_exists.mp hc
  rw [List.filterMap_cons_some hd]
  exact List.cons_ne_nil _ _

/-- A digit in front of a row that begins with a digit leaves it even. -/
theorem isEven_cons (hc : IsDigit c) (h : IsRow row) : isEven (c :: row) = isEven row := by
  obtain ⟨d, ds, rfl, hd⟩ := h.exists_cons
  have hcu := hc.ne digitValue?_underscore
  have hdu := hd.ne digitValue?_underscore
  rw [isEven] <;> simp [hcu, hdu]

theorem IsRow.isEven (h : IsRow row) : isEven row = true := by
  induction h with
  | last hc =>
    have hcu := hc.ne digitValue?_underscore
    rw [IntegerText.isEven] <;> simp [hcu, IntegerText.isEven]
  | next hc hcs ih => rw [isEven_cons hc hcs, ih]
  | apart hc hcs ih =>
    obtain ⟨d, ds, rfl, hd⟩ := hcs.exists_cons
    have hcu := hc.ne digitValue?_underscore
    have hdu := hd.ne digitValue?_underscore
    rw [IntegerText.isEven] <;> simp [hcu, hdu, ih]

theorem isRow_of_isEven (heven : isEven row = true) (hall : ∀ c ∈ row, isInRow c = true) (hrow : row ≠ []) :
    IsRow row := by
  fun_induction isEven row with
  | case1 | case2 | case3 => exact absurd heven Bool.false_ne_true
  | case4 c cs hc hcs _ ih =>
    obtain ⟨hdigit, -, hrest⟩ := by simpa only [List.forall_mem_cons] using hall
    exact .apart (isDigit_of_isInRow hdigit hc) (ih heven hrest hcs)
  | case5 c cs hc _ _ _ ih =>
    obtain ⟨hdigit, hrest⟩ := List.forall_mem_cons.mp hall
    have hdigit := isDigit_of_isInRow hdigit hc
    cases cs with
    | nil => exact .last hdigit
    | cons d ds => exact .next hdigit (ih heven hrest (List.cons_ne_nil d ds))
  | case6 => exact absurd rfl hrow

/-- What follows a sign, and the sign. -/
theorem signed_eq (cs : List Char) :
    ∃ sign, (sign = [] ∨ sign = ['+'] ∨ sign = ['-']) ∧ cs = sign ++ (signed cs).2 := by
  unfold signed
  split
  · exact ⟨['-'], .inr (.inr rfl), rfl⟩
  · exact ⟨['+'], .inr (.inl rfl), rfl⟩
  · exact ⟨[], .inl rfl, rfl⟩

/-- A sign in front of a row is taken off it. -/
theorem signed_append {sign : List Char} (hsign : sign = [] ∨ sign = ['+'] ∨ sign = ['-']) (hrow : IsRow row)
    (behind : List Char) : (signed (sign ++ (row ++ behind))).2 = row ++ behind := by
  rcases hsign with rfl | rfl | rfl
  · obtain ⟨c, cs, rfl, hc⟩ := hrow.exists_cons
    have hplus : c ≠ '+' := hc.ne (by decide +kernel)
    have hminus : c ≠ '-' := hc.ne (by decide +kernel)
    rw [List.nil_append, List.cons_append, signed]
    · intro _ h
      exact hminus (List.cons.inj h).1
    · intro _ h
      exact hplus (List.cons.inj h).1
  · rfl
  · rfl

/-- Blanks end a row. -/
theorem takeWhile_row {behind : List Char} (hrow : IsRow row) (hbehind : ∀ c ∈ behind, isBlank c = true) :
    (row ++ behind).takeWhile isInRow = row := by
  rw [List.takeWhile_append_of_pos hrow.all_isInRow]
  cases behind with
  | nil => simp
  | cons c cs =>
    have hblank := isInRow_of_isBlank (hbehind c List.mem_cons_self)
    simp [hblank]

/-- Blanks in front of a sign or a row are passed over. -/
theorem dropWhile_blanks {before sign : List Char} (hbefore : ∀ c ∈ before, isBlank c = true)
    (hsign : sign = [] ∨ sign = ['+'] ∨ sign = ['-']) (hrow : IsRow row) (behind : List Char) :
    (before ++ (sign ++ (row ++ behind))).dropWhile isBlank = sign ++ (row ++ behind) := by
  rw [List.dropWhile_append_of_pos hbefore]
  obtain ⟨c, cs, rfl, hc⟩ := hrow.exists_cons
  rcases hsign with rfl | rfl | rfl
  · exact List.dropWhile_cons_of_neg (by simp [hc.isBlank])
  · exact List.dropWhile_cons_of_neg (by decide)
  · exact List.dropWhile_cons_of_neg (by decide)

theorem readChars_of_isNumeral (h : IsNumeral cs) (literal : String) : ∃ n, readChars cs literal = .ok n := by
  obtain ⟨before, sign, row, behind, rfl, hbefore, hsign, hrow, hlength, hbehind⟩ := h
  have hsome : (row.filterMap digitValue?).isEmpty = false := by simpa using hrow.filterMap_ne_nil
  have hblank : behind.all isBlank = true := List.all_eq_true.mpr hbehind
  simp only [readChars]
  rw [dropWhile_blanks hbefore hsign hrow, signed_append hsign hrow, takeWhile_row hrow hbehind, List.drop_left,
    hrow.isEven, hsome, hblank, if_neg (by decide), if_neg (Nat.not_lt.mpr hlength), if_neg (by decide)]
  exact ⟨_, rfl⟩

theorem isNumeral_of_readChars {literal : String} {n : Int} (h : readChars cs literal = .ok n) : IsNumeral cs := by
  obtain ⟨sign, hsign, hsigned⟩ := signed_eq (cs.dropWhile isBlank)
  simp only [readChars] at h
  generalize (signed (cs.dropWhile isBlank)).2 = rest at h hsigned
  split at h
  · exact nomatch h
  next heven =>
  split at h
  · exact nomatch h
  next hlength =>
  split at h
  · exact nomatch h
  next hends =>
  simp only [Bool.not_eq_true, Bool.not_eq_false', Bool.or_eq_false_iff, List.all_eq_true] at heven hends
  obtain ⟨hsome, hbehind⟩ := hends
  have hrow : rest.takeWhile isInRow ≠ [] := by
    intro hnil
    rw [hnil] at hsome
    exact absurd hsome (by decide)
  refine ⟨cs.takeWhile isBlank, sign, rest.takeWhile isInRow, rest.drop (rest.takeWhile isInRow).length, ?_,
    fun c => List.mem_takeWhile_imp, hsign, isRow_of_isEven heven (fun c => List.mem_takeWhile_imp) hrow,
    Nat.not_lt.mp hlength, hbehind⟩
  rw [List.prefix_iff_eq_append.mp (List.takeWhile_prefix isInRow), ← hsigned, List.takeWhile_append_dropWhile]

/-- A text is read as an integer if and only if it writes one. -/
theorem exists_read_iff (s : String) : (∃ n, read s = .ok n) ↔ IsNumeral s.toList := by
  constructor
  · rintro ⟨n, hn⟩
    exact isNumeral_of_readChars hn
  · intro h
    exact readChars_of_isNumeral h _

end EntityStore.IntegerText

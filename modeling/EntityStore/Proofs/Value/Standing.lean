import EntityStore.Proofs.Number.Quantity
import EntityStore.Proofs.Outcome
import EntityStore.Value.Order
import Mathlib.Data.List.Lex
import Mathlib.Data.String.Basic

namespace EntityStore

namespace Value

/-- A number, with truth values as zero and one and timestamps by their instants. Other values count as zero. -/
def measure : Value → Quantity
  | .bool b => .ofInt b.toNat
  | .int n => .ofInt n
  | .float x => .ofBinary64 x
  | .timestamp t => .ofInt t.instant
  | _ => .ofInt 0

/-- The display of a text, or of a value that has no order of its own. -/
def script (v : Value) : String :=
  if v.bracket == 3 || v.hasDisplayOrder then v.display.toOption.getD "" else ""

/-- The bytes that a value is made of. -/
def octets : Value → List ℕ
  | .bytes bs => bs.map UInt8.toNat
  | .objectId o => o.bytes.map UInt8.toNat
  | _ => []

/-- What tells values of one type from each other. -/
abbrev Content := (ℕ ×ₗ ℚ) ×ₗ String ×ₗ List ℕ

def content (v : Value) : Content := toLex (v.measure.place, toLex (v.script, v.octets))

/-- Types come one after the other, and within a type values come by their content. -/
abbrev Standing := ℕ ×ₗ Content

def standing (v : Value) : Standing := toLex (v.bracket, v.content)

theorem bytesLess_iff (as bs : List UInt8) :
    bytesLess as bs = true ↔ as.map UInt8.toNat < bs.map UInt8.toNat := by
  induction as generalizing bs with
  | nil => cases bs <;> simp [bytesLess]
  | cons a as ih =>
    cases bs with
    | nil => simp [bytesLess]
    | cons b bs => simp [bytesLess, ih, List.cons_lt_cons_iff, UInt8.lt_iff_toNat_lt, UInt8.toNat_inj]

theorem measure_eq_undefined_iff (v : Value) : v.measure = .undefined ↔ v.isUndefined = true := by
  cases v
  case float x => rcases x with _ | (_ | _) | _ <;> simp [measure, isUndefined, Quantity.ofBinary64]
  all_goals simp [measure, isUndefined, Quantity.ofInt]

theorem content_lt_iff (v w : Value) : v.content < w.content ↔ v.measure.place < w.measure.place ∨
    v.measure.place = w.measure.place ∧ (v.script < w.script ∨ v.script = w.script ∧ v.octets < w.octets) := by
  simp only [content, Prod.Lex.toLex_lt_toLex]

/-- Values without an order of their own differ in their displays only. -/
theorem content_of_hasDisplayOrder {v : Value} (h : v.hasDisplayOrder = true) :
    v.content = toLex ((Quantity.ofInt 0).place, toLex (v.script, [])) := by
  cases v <;> simp [hasDisplayOrder, bracket] at h <;> rfl

/-- Values of a type with an order of its own are compared by their content. -/
theorem less_iff {v w : Value} (hbracket : v.bracket = w.bracket) (hown : v.hasDisplayOrder = false)
    (hundefined : v.isUndefined = w.isUndefined) : v.less w = true ↔ v.content < w.content := by
  have hmeasure : v.measure = .undefined ↔ w.measure = .undefined := by
    rw [measure_eq_undefined_iff, measure_eq_undefined_iff, hundefined]
  rw [content_lt_iff, ← Quantity.less_iff hmeasure]
  -- Of all pairs of kinds, those of one bracket that has an order of its own are left.
  cases v <;> simp [hasDisplayOrder, bracket] at hown <;> cases w <;> simp [bracket] at hbracket
  case bool.bool a b =>
    cases a <;> cases b <;>
      simp [less, measure, script, bracket, hasDisplayOrder, octets, Quantity.less_ofInt]
  case text.text s t =>
    simp [less, measure, script, bracket, display, octets, Except.toOption, Quantity.less_ofInt]
  case bytes.bytes as bs =>
    simp [less, measure, script, bracket, hasDisplayOrder, octets, Quantity.less_ofInt, bytesLess_iff]
  case objectId.objectId o o' =>
    simp [less, measure, script, bracket, hasDisplayOrder, octets, Quantity.less_ofInt, bytesLess_iff]
  case timestamp.timestamp t t' =>
    simp [less, measure, script, bracket, hasDisplayOrder, octets, Quantity.less_ofInt]
  all_goals simp [less, measure, script, bracket, hasDisplayOrder, octets]

end Value

namespace SortKey

variable {v w : Value} {a b : SortKey}

/-- What a value is sorted by is itself, or its display as a text. -/
theorem ofValue_eq (h : ofValue v = .ok a) :
    a.bracket = v.bracket ∧ a.key = if v.hasDisplayOrder then .text v.script else v := by
  rw [ofValue] at h
  split at h
  · next hdisplay =>
    obtain ⟨shown, hshown, hkey⟩ := Outcome.bind_eq_ok.mp h
    obtain rfl := Except.ok.inj hkey
    have hscript : v.script = shown := by simp [Value.script, hdisplay, hshown, Except.toOption]
    exact ⟨rfl, by rw [if_pos hdisplay, hscript]⟩
  · next hown =>
    obtain rfl := Except.ok.inj h
    exact ⟨rfl, by rw [if_neg hown]⟩

/-- Comparing keys is comparing where the values stand. -/
theorem precedes_iff (ha : ofValue v = .ok a) (hb : ofValue w = .ok b)
    (h : v.bracket = w.bracket → v.isUndefined = w.isUndefined) :
    a.precedes b = true ↔ v.standing < w.standing := by
  obtain ⟨habracket, hakey⟩ := ofValue_eq ha
  obtain ⟨hbbracket, hbkey⟩ := ofValue_eq hb
  rw [precedes, habracket, hbbracket, hakey, hbkey, Value.standing, Value.standing, Prod.Lex.toLex_lt_toLex]
  split
  · next hbracket =>
    have hdisplay : w.hasDisplayOrder = v.hasDisplayOrder := by
      rw [Value.hasDisplayOrder, Value.hasDisplayOrder, hbracket]
    rw [hdisplay]
    split
    · next hshown =>
      rw [Value.content_of_hasDisplayOrder hshown, Value.content_of_hasDisplayOrder (hdisplay.trans hshown),
        Prod.Lex.toLex_lt_toLex, Prod.Lex.toLex_lt_toLex]
      simp [Value.less, hbracket]
    · next hown =>
      rw [Value.less_iff hbracket (by simpa using hown) (h hbracket)]
      simp [hbracket]
  · next hbracket => simp [hbracket]

end SortKey

end EntityStore

import EntityStore.Proofs.Sorting.Stability
import EntityStore.Proofs.Value.Order
import EntityStore.Proofs.Value.Spelling
import EntityStore.Proofs.Value.Standing
import EntityStore.Value.Item

namespace EntityStore

/-- Whether a value that stands in one place may be followed by one that stands in another, in a direction. -/
def Direction.admits (d : Direction) (a b : Value.Standing) : Prop :=
  match d with
  | .ascending => a ≤ b
  | .descending => b ≤ a

namespace Value

open Sorting

mutual

/-- Whether a value is made of data alone, to any depth: of no entity, identity or type of records, and with integers
of 64 bits. -/
def isData : Value → Bool
  | .int n => isPlace n
  | .list items | .tuple items | .set items | .frozenSet items => itemsAreData items
  | .document _ fields => fieldsAreData fields
  | .entityId _ | .record _ _ _ | .thing | .recordType _ => false
  | _ => true
termination_by structural v => v

def itemsAreData : List Value → Bool
  | [] => true
  | v :: vs => isData v && itemsAreData vs
termination_by structural vs => vs

def fieldIsData : Value × Value → Bool
  | (k, v) => isData k && isData v
termination_by structural p => p

def fieldsAreData : List (Value × Value) → Bool
  | [] => true
  | p :: fs => fieldIsData p && fieldsAreData fs
termination_by structural fs => fs

end

mutual

/-- Integers of 64 bits do not have too many digits, and so data can be spelled. -/
theorem isOk_spelled_of_isData : ∀ {v : Value}, v.isData = true → v.spelled.isOk = true
  | .int n, h => by
    rw [isData, isPlace, Bool.and_eq_true_iff, decide_eq_true_iff, decide_eq_true_iff] at h
    have hfew : n.natAbs < 10 ^ 19 := by omega
    rw [isOk_spelled_int, decide_eq_true_iff]
    exact Nat.lt_of_lt_of_le hfew (Nat.pow_le_pow_right (by decide) (by decide))
  | .list items, h | .tuple items, h | .set items, h | .frozenSet items, h => by
    simp only [isOk_spelled_list, isOk_spelled_tuple, isOk_spelled_set, isOk_spelled_frozenSet]
    exact all_isOk_spelled_of_itemsAreData h
  | .document _ fields, h => by
    rw [isOk_spelled_document]
    exact all_isOk_spelled_of_fieldsAreData h
  | .bool b, _ => isOk_spelled_bool b
  | .null, _ | .float _, _ | .text _, _ | .bytes _, _ | .timestamp _, _ | .date _, _ | .objectId _, _ | .decimal _, _
  | .pattern _, _ | .url _, _ | .direction _, _ => rfl
  | .entityId _, h | .record _ _ _, h | .thing, h | .recordType _, h => absurd h Bool.false_ne_true
termination_by structural v => v

theorem all_isOk_spelled_of_itemsAreData : ∀ {vs : List Value}, itemsAreData vs = true →
    vs.all (fun v => v.spelled.isOk) = true
  | [], _ => rfl
  | v :: vs, h => by
    obtain ⟨hv, hvs⟩ := Bool.and_eq_true_iff.mp h
    rw [List.all_cons, isOk_spelled_of_isData hv, all_isOk_spelled_of_itemsAreData hvs, Bool.and_self]
termination_by structural vs => vs

theorem isOk_spelled_of_fieldIsData : ∀ {f : Value × Value}, fieldIsData f = true →
    (f.1.spelled.isOk && f.2.spelled.isOk) = true
  | (k, v), h => by
    obtain ⟨hk, hv⟩ := Bool.and_eq_true_iff.mp h
    rw [isOk_spelled_of_isData hk, isOk_spelled_of_isData hv, Bool.and_self]
termination_by structural f => f

theorem all_isOk_spelled_of_fieldsAreData : ∀ {fs : List (Value × Value)}, fieldsAreData fs = true →
    fs.all (fun f => f.1.spelled.isOk && f.2.spelled.isOk) = true
  | [], _ => rfl
  | f :: fs, h => by
    obtain ⟨hf, hfs⟩ := Bool.and_eq_true_iff.mp h
    rw [List.all_cons, isOk_spelled_of_fieldIsData hf, all_isOk_spelled_of_fieldsAreData hfs, Bool.and_self]
termination_by structural fs => fs

end

/-- Data can be shown. -/
theorem exists_display_of_isData {v : Value} (h : v.isData = true) : ∃ shown, v.display = .ok shown := by
  have hspelled := isOk_spelled_of_isData h
  cases v with
  | entityId | record | thing | recordType => exact absurd h Bool.false_ne_true
  | document kind fields =>
    cases kind with
    | readOnly =>
      rw [isOk_spelled_document, ← isOk_spelledFields] at hspelled
      obtain ⟨shown, hshown⟩ := Outcome.exists_of_isOk hspelled
      exact ⟨_, by rw [display, hshown]; rfl⟩
    | plain | ordered => exact Outcome.exists_of_isOk hspelled
  | text | timestamp | date | objectId | decimal | url | direction => exact ⟨_, rfl⟩
  | _ => exact Outcome.exists_of_isOk hspelled

/-- Whether all numbers among some values are undefined, or none is. Then any two of the values can be compared. -/
def AreComparable (vs : List Value) : Prop :=
  ∀ v ∈ vs, ∀ w ∈ vs, v.bracket = w.bracket → v.isUndefined = w.isUndefined

variable {vs : List Value}

theorem areComparable_of_defined (h : ∀ v ∈ vs, v.isUndefined = false) : AreComparable vs := by
  intro v hv w hw _
  rw [h v hv, h w hw]

theorem AreComparable.of_perm {ws : List Value} (h : AreComparable vs) (hperm : ws.Perm vs) : AreComparable ws := by
  intro v hv w hw
  exact h v (hperm.mem_iff.mp hv) w (hperm.mem_iff.mp hw)

variable {pairs : List (SortKey × Value)}

/-- Values with their keys are arranged by where the values stand. -/
theorem arranges_ordered (hkeys : ∀ p ∈ pairs, SortKey.ofValue p.2 = .ok p.1)
    (hcomparable : AreComparable (pairs.map (·.2))) :
    Arranges (· ≤ ·) (fun p => p.2.standing) pairs (ordered pairs) := by
  have hcompares : ComparesBy (fun p q => p.1.precedes q.1) (fun p => p.2.standing) pairs := by
    intro p hp q hq
    exact SortKey.precedes_iff (hkeys p hp) (hkeys q hq)
      (hcomparable p.2 (List.mem_map_of_mem hp) q.2 (List.mem_map_of_mem hq))
  rw [ordered]
  split
  · exact hcompares.arranges_sort
  · exact hcompares.arranges_mergeSort

theorem ofValue_of_keyed {v : Value} {p : SortKey × Value} (h : v.keyed = .ok p) : SortKey.ofValue p.2 = .ok p.1 := by
  obtain ⟨key, hkey, hp⟩ := Outcome.bind_eq_ok.mp h
  obtain rfl := Except.ok.inj hp
  exact hkey

/-- Values are sorted by where they stand, stably in either direction. -/
theorem sorted_arranges (d : Direction) (hdata : ∀ v ∈ vs, v.isData = true) (hcomparable : AreComparable vs) :
    ∃ ws, sorted d vs = .ok ws ∧ Arranges d.admits standing vs ws := by
  obtain ⟨pairs, hpairs, hvalues⟩ := exists_mapM_keyed fun v hv => exists_display_of_isData (hdata v hv)
  have hkeys : ∀ p ∈ pairs, SortKey.ofValue p.2 = .ok p.1 :=
    Outcome.mapM_forall hpairs fun v p _ hp => ofValue_of_keyed hp
  rw [← hvalues] at hcomparable
  rw [sorted, hpairs, ← hvalues]
  refine ⟨_, rfl, ?_⟩
  cases d with
  | ascending => exact Arranges.map Prod.snd (arranges_ordered hkeys hcomparable)
  | descending =>
    have hkeys' : ∀ p ∈ pairs.reverse, SortKey.ofValue p.2 = .ok p.1 := fun p hp => hkeys p (List.mem_reverse.mp hp)
    have hcomparable' : AreComparable (pairs.reverse.map (·.2)) :=
      hcomparable.of_perm ((List.reverse_perm pairs).map _)
    exact Arranges.map Prod.snd (arranges_ordered hkeys' hcomparable').reverse

end Value

end EntityStore

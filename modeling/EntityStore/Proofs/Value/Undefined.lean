import EntityStore.Proofs.Value.Sorted

namespace EntityStore

open Sorting

namespace Value

variable {v w : Value}

theorem eq_nan_of_isUndefined (h : v.isUndefined = true) : v = .float .nan := by
  cases v with
  | float x => cases x <;> simp_all [isUndefined]
  | _ => exact absurd h Bool.false_ne_true

/-- An undefined number comes neither before nor behind any value. -/
theorem less_eq_false_of_isUndefined (h : v.isUndefined = true ∨ w.isUndefined = true) : v.less w = false := by
  rcases h with h | h
  · rw [eq_nan_of_isUndefined h]
    cases w <;> rfl
  · rw [eq_nan_of_isUndefined h]
    cases v with
    | float x => exact Quantity.less_undefined _
    | _ => rfl

/-- Where a value stands if undefined numbers come behind all others, and not in front of them. -/
def lateStanding (v : Value) : Standing :=
  if v.isUndefined = true then toLex (v.bracket, toLex (Quantity.beyond, toLex ("", []))) else v.standing

theorem lateStanding_of_defined (h : v.isUndefined = false) : v.lateStanding = v.standing := by
  simp [lateStanding, h]

theorem lateStanding_lt_of_bracket_lt (h : v.bracket < w.bracket) : v.lateStanding < w.lateStanding := by
  have hbracket (u : Value) : ∃ content, u.lateStanding = toLex (u.bracket, content) := by
    rw [lateStanding]
    split
    · exact ⟨_, rfl⟩
    · exact ⟨_, rfl⟩
  obtain ⟨_, hv⟩ := hbracket v
  obtain ⟨_, hw⟩ := hbracket w
  rw [hv, hw, Prod.Lex.toLex_lt_toLex]
  exact .inl h

/-- An undefined number stands in front of any other number, or behind it. -/
theorem standing_lt_of_isUndefined (hbracket : v.bracket = w.bracket) (hv : v.isUndefined = true)
    (hw : w.isUndefined = false) : v.standing < w.standing ∧ w.lateStanding < v.lateStanding := by
  have hdefined : w.measure ≠ .undefined := by
    rw [ne_eq, measure_eq_undefined_iff, hw]
    exact Bool.false_ne_true
  have hmeasure : v.measure = .undefined := (measure_eq_undefined_iff v).mpr hv
  constructor
  · rw [standing, standing, hbracket, Prod.Lex.toLex_lt_toLex]
    refine .inr ⟨rfl, ?_⟩
    rw [content_lt_iff, hmeasure]
    exact .inl (Quantity.place_undefined_lt hdefined)
  · rw [lateStanding_of_defined hw, lateStanding, if_pos hv, standing, ← hbracket, Prod.Lex.toLex_lt_toLex]
    refine .inr ⟨rfl, ?_⟩
    rw [content, Prod.Lex.toLex_lt_toLex]
    exact .inl (Quantity.place_lt_beyond _)

end Value

namespace SortKey

variable {v w : Value} {a b : SortKey}

theorem precedes_eq_false_of_isUndefined (ha : ofValue v = .ok a) (hb : ofValue w = .ok b)
    (hbracket : v.bracket = w.bracket) (h : v.isUndefined = true ∨ w.isUndefined = true) : a.precedes b = false := by
  have hnumber : v.bracket = 2 := by
    rcases h with h | h
    · rw [Value.eq_nan_of_isUndefined h]
      rfl
    · rw [hbracket, Value.eq_nan_of_isUndefined h]
      rfl
  obtain ⟨habracket, hakey⟩ := ofValue_eq ha
  obtain ⟨hbbracket, hbkey⟩ := ofValue_eq hb
  have hv : v.hasDisplayOrder = false := by rw [Value.hasDisplayOrder, hnumber]; rfl
  have hw : w.hasDisplayOrder = false := by rw [Value.hasDisplayOrder, ← hbracket, hnumber]; rfl
  rw [precedes, habracket, hbbracket, if_pos hbracket, hakey, hbkey, hv, hw]
  exact Value.less_eq_false_of_isUndefined h

/-- What precedes another value stands in front of it, wherever undefined numbers stand. -/
theorem standing_lt_of_precedes (ha : ofValue v = .ok a) (hb : ofValue w = .ok b) (h : a.precedes b = true) :
    v.standing < w.standing ∧ v.lateStanding < w.lateStanding := by
  have hcomparable : v.bracket = w.bracket → v.isUndefined = false ∧ w.isUndefined = false := by
    intro hbracket
    by_contra hundefined
    have hsome : v.isUndefined = true ∨ w.isUndefined = true := by
      rwa [not_and_or, Bool.not_eq_false, Bool.not_eq_false] at hundefined
    rw [precedes_eq_false_of_isUndefined ha hb hbracket hsome] at h
    exact Bool.false_ne_true h
  have hstanding : v.standing < w.standing := by
    refine (precedes_iff ha hb fun hbracket => ?_).mp h
    obtain ⟨hv, hw⟩ := hcomparable hbracket
    rw [hv, hw]
  refine ⟨hstanding, ?_⟩
  by_cases hbracket : v.bracket = w.bracket
  · obtain ⟨hv, hw⟩ := hcomparable hbracket
    rw [Value.lateStanding_of_defined hv, Value.lateStanding_of_defined hw]
    exact hstanding
  · rw [Value.standing, Value.standing, Prod.Lex.toLex_lt_toLex] at hstanding
    have hlt : v.bracket < w.bracket := hstanding.resolve_right fun hequal => hbracket hequal.1
    exact Value.lateStanding_lt_of_bracket_lt hlt

end SortKey

namespace Value

variable {vs : List Value}

/-- Values with an undefined number among them are left as they are if none precedes the one in front of it. -/
theorem sorted_of_ordered {place : Value → Standing} (hdata : ∀ v ∈ vs, v.isData = true)
    (hundefined : ∃ v ∈ vs, v.isUndefined = true) (hordered : vs.Pairwise fun v w => place v ≤ place w)
    (hplace : ∀ {v w a b}, SortKey.ofValue v = .ok a → SortKey.ofValue w = .ok b → a.precedes b = true →
      place v < place w) : sorted .ascending vs = .ok vs := by
  obtain ⟨pairs, hpairs, hvalues⟩ := exists_mapM_keyed fun v hv => exists_display_of_isData (hdata v hv)
  have hkeys : ∀ p ∈ pairs, SortKey.ofValue p.2 = .ok p.1 :=
    Outcome.mapM_forall hpairs fun v p _ hp => ofValue_of_keyed hp
  have hsome : (pairs.any fun p => p.2.isUndefined) = true := by
    obtain ⟨v, hv, hnan⟩ := hundefined
    rw [← hvalues] at hv
    obtain ⟨p, hp, rfl⟩ := List.mem_map.mp hv
    exact List.any_eq_true.mpr ⟨p, hp, hnan⟩
  have hrises : pairs.Pairwise fun p q => q.1.precedes p.1 = false := by
    rw [← hvalues, List.pairwise_map] at hordered
    apply hordered.imp_of_mem
    intro p q hp hq hle
    by_contra hprecedes
    rw [Bool.not_eq_false] at hprecedes
    exact absurd (hplace (hkeys q hq) (hkeys p hp) hprecedes) (not_lt_of_ge hle)
  have hsort : ordered pairs = pairs := by
    rw [ordered, if_pos hsome]
    exact sort_of_rising _ hrises.isChain
  rw [sorted, hpairs]
  simp only [Outcome.ok_bind, hsort, hvalues, Outcome.pure_eq_ok]

/-- Whether no two of some values stand in one place, but for undefined numbers, which are all the same. -/
def AreToldApart (vs : List Value) : Prop :=
  vs.Pairwise fun v w => v.standing = w.standing → v.isUndefined = true ∧ w.isUndefined = true

theorem AreToldApart.eq_of_standing_eq {v w : Value} (h : AreToldApart vs) (hv : v ∈ vs) (hw : w ∈ vs)
    (hstanding : v.standing = w.standing) : v = w := by
  by_contra hne
  have hsymm : Std.Symm fun v w : Value => v.standing = w.standing → v.isUndefined = true ∧ w.isUndefined = true :=
    ⟨fun v w hvw hwv => (hvw hwv.symm).symm⟩
  obtain ⟨hv', hw'⟩ := h.forall hv hw hne hstanding
  exact hne ((eq_nan_of_isUndefined hv').trans (eq_nan_of_isUndefined hw').symm)

/-- Values that can be compared and are told apart are sorted into one order, in whatever order they come. -/
theorem sorted_anyOrder (hdata : ∀ v ∈ vs, v.isData = true) (hcomparable : AreComparable vs)
    (hapart : AreToldApart vs) :
    ∃ zs, zs.Perm vs ∧ ∀ ws, ws.Perm vs → sorted .ascending ws = .ok zs ∧ sorted .descending ws = .ok zs.reverse := by
  have harranges (d : Direction) {ws : List Value} (hperm : ws.Perm vs) :
      ∃ zs, sorted d ws = .ok zs ∧ Arranges d.admits standing ws zs :=
    sorted_arranges d (fun v hv => hdata v (hperm.mem_iff.mp hv)) (hcomparable.of_perm hperm)
  obtain ⟨zs, -, hzs⟩ := harranges .ascending (List.Perm.refl vs)
  have hunique {ys : List Value} (hperm : ys.Perm vs) (hys : ys.Pairwise fun v w => v.standing ≤ w.standing) :
      ys = zs := by
    apply eq_of_ordered_of_perm hys hzs.ordered (hperm.trans hzs.perm.symm)
    intro v hv w hw
    exact hapart.eq_of_standing_eq (hperm.mem_iff.mp hv) (hperm.mem_iff.mp hw)
  refine ⟨zs, hzs.perm, fun ws hperm => ⟨?_, ?_⟩⟩
  · obtain ⟨ys, hsorted, hys⟩ := harranges .ascending hperm
    rw [hsorted, hunique (hys.perm.trans hperm) hys.ordered]
  · obtain ⟨ys, hsorted, hys⟩ := harranges .descending hperm
    have hperm' : ys.reverse.Perm vs := (List.reverse_perm ys).trans (hys.perm.trans hperm)
    rw [hsorted, ← hunique hperm' (List.pairwise_reverse.mpr hys.ordered), List.reverse_reverse]

/-- Where an undefined number is among other numbers, the values are left as they are in two different orders. -/
theorem exists_sorted_differently (hdata : ∀ v ∈ vs, v.isData = true) (h : ¬AreComparable vs) :
    ∃ ws ws', ws.Perm vs ∧ ws'.Perm vs ∧ ws ≠ ws' ∧ sorted .ascending ws = .ok ws ∧
      sorted .ascending ws' = .ok ws' := by
  have hbeside : ∃ v ∈ vs, ∃ w ∈ vs, v.bracket = w.bracket ∧ v.isUndefined = true ∧ w.isUndefined = false := by
    simp only [AreComparable, not_forall] at h
    obtain ⟨v, hv, w, hw, hbracket, hdiffers⟩ := h
    cases hv' : v.isUndefined with
    | false =>
      rw [hv', eq_comm, Bool.not_eq_false] at hdiffers
      exact ⟨w, hw, v, hv, hbracket.symm, hdiffers, hv'⟩
    | true =>
      rw [hv', eq_comm, Bool.not_eq_true] at hdiffers
      exact ⟨v, hv, w, hw, hbracket, hv', hdiffers⟩
  obtain ⟨u, hu, n, hn, hbracket, hundefined, hdefined⟩ := hbeside
  obtain ⟨hearly, hlate⟩ := standing_lt_of_isUndefined hbracket hundefined hdefined
  have hfront := Sorting.arranges_mergeSort standing vs
  have hbehind := Sorting.arranges_mergeSort lateStanding vs
  have hleft {ws : List Value} {place : Value → Standing} (hws : Arranges (· ≤ ·) place vs ws)
      (hplace : ∀ {v w a b}, SortKey.ofValue v = .ok a → SortKey.ofValue w = .ok b → a.precedes b = true →
        place v < place w) : sorted .ascending ws = .ok ws :=
    sorted_of_ordered (fun v hv => hdata v (hws.perm.mem_iff.mp hv)) ⟨u, hws.perm.mem_iff.mpr hu, hundefined⟩
      hws.ordered hplace
  refine ⟨_, _, hfront.perm, hbehind.perm, fun hsame => ?_, ?_, ?_⟩
  · have hu' := hfront.perm.mem_iff.mpr hu
    have hn' := hfront.perm.mem_iff.mpr hn
    exact not_lt_of_ordered hfront.ordered (hsame ▸ hbehind.ordered) hu' hn' hearly hlate
  · exact hleft hfront fun ha hb h => (SortKey.standing_lt_of_precedes ha hb h).1
  · exact hleft hbehind fun ha hb h => (SortKey.standing_lt_of_precedes ha hb h).2

end Value

end EntityStore

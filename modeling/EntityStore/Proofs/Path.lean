import EntityStore.Path

namespace EntityStore.Path

theorem ofText_ne_nil (s : String) : ofText s ≠ [] := by
  simp [ofText, splitDots_ne_nil]

theorem ofText_injective {s t : String} (h : ofText s = ofText t) : s = t := by
  rw [← text_ofText s, h, text_ofText]

/-- A dot between two names separates their segments. -/
theorem splitDots_append (cs ds : List Char) : splitDots (cs ++ '.' :: ds) = splitDots cs ++ splitDots ds := by
  induction cs with
  | nil => exact splitDots_append_dot [] ds List.not_mem_nil
  | cons c cs ih =>
    obtain ⟨first, rest, hcs⟩ := List.exists_cons_of_ne_nil (splitDots_ne_nil cs)
    rw [hcs, List.cons_append] at ih
    by_cases hc : c = '.' <;> simp [splitDots, ih, hcs, hc]

theorem joinDots_append {ss ts : List (List Char)} (hss : ss ≠ []) (hts : ts ≠ []) :
    joinDots (ss ++ ts) = joinDots ss ++ '.' :: joinDots ts := by
  induction ss with
  | nil => exact absurd rfl hss
  | cons s ss ih =>
    cases ss with
    | nil =>
      obtain ⟨t, rest, rfl⟩ := List.exists_cons_of_ne_nil hts
      rfl
    | cons u ss =>
      have hrest := ih (List.cons_ne_nil u ss)
      rw [List.cons_append] at hrest
      simp [joinDots, hrest]

theorem ofText_append (s t : String) : ofText (s ++ "." ++ t) = ofText s ++ ofText t := by
  have hchars : (s ++ "." ++ t).toList = s.toList ++ '.' :: t.toList := by simp
  rw [ofText, hchars, splitDots_append, List.map_append]
  rfl

theorem text_append {p q : Path} (hp : p ≠ []) (hq : q ≠ []) : text (p ++ q) = text p ++ "." ++ text q := by
  rw [text, List.map_append, joinDots_append (by simpa using hp) (by simpa using hq), text, text]
  apply String.ext
  simp

theorem mem_ancestors {p q : Path} (hne : p ≠ []) (hbegins : p <+: q) (hpq : p ≠ q) :
    p ∈ q.ancestors := by
  have hlt : p.length < q.length := by
    have hle := hbegins.length_le
    have hlength : p.length ≠ q.length := fun h => hpq (hbegins.eq_of_length h)
    omega
  have hpos : 0 < p.length := List.length_pos_iff.mpr hne
  refine List.mem_map.mpr ⟨q.length - 1 - p.length, ?_, ?_⟩
  · rw [List.mem_range]
    omega
  · have hlength : q.length - 1 - (q.length - 1 - p.length) = p.length := by omega
    rw [hlength]
    exact (List.prefix_iff_eq_take.mp hbegins).symm

theorem exists_of_mem_ancestors {p q : Path} (h : p ∈ q.ancestors) : ∃ r, p ≠ [] ∧ r ≠ [] ∧ q = p ++ r := by
  obtain ⟨n, hn, rfl⟩ := List.mem_map.mp h
  have hlt : n < q.length - 1 := List.mem_range.mp hn
  refine ⟨q.drop (q.length - 1 - n), ?_, ?_, (List.take_append_drop _ q).symm⟩
  · have hne : q ≠ [] := by
      rintro rfl
      simp at hlt
    have hpos : q.length - 1 - n ≠ 0 := by omega
    simp [hne, hpos]
  · have hpart : q.length - 1 - n < q.length := by omega
    simpa using hpart

theorem exists_mem_ancestors_iff {s t : String} :
    (∃ p ∈ (ofText t).ancestors, p.text = s) ↔ ∃ rest, t = s ++ "." ++ rest := by
  constructor
  · rintro ⟨p, hp, rfl⟩
    obtain ⟨r, hpne, hrne, hsplit⟩ := exists_of_mem_ancestors hp
    refine ⟨text r, ?_⟩
    rw [← text_append hpne hrne, ← hsplit, text_ofText]
  · rintro ⟨rest, rfl⟩
    refine ⟨ofText s, ?_, text_ofText s⟩
    rw [ofText_append]
    refine mem_ancestors (ofText_ne_nil s) (List.prefix_append _ _) fun h => ?_
    exact ofText_ne_nil rest (List.self_eq_append_right.mp h)

/-- A name that leads to another one is the same, or the other goes on after it with a dot. -/
theorem exists_of_prefix {s t : String} (hbegins : ofText s <+: ofText t) (hst : s ≠ t) :
    ∃ rest, t = s ++ "." ++ rest := by
  have hpaths : ofText s ≠ ofText t := fun h => hst (ofText_injective h)
  exact exists_mem_ancestors_iff.mp ⟨_, mem_ancestors (ofText_ne_nil s) hbegins hpaths, text_ofText s⟩

end EntityStore.Path

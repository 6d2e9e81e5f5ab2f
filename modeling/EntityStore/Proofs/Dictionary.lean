import EntityStore.Dictionary
import Mathlib.Data.List.Induction

namespace EntityStore.Dictionary

variable {κ α : Type} [BEq κ] {d : Dictionary κ α} {key : κ} {v : α}

theorem exists_mem_of_get? (h : get? key d = some v) : ∃ k, (k == key) = true ∧ (k, v) ∈ d := by
  induction d with
  | nil => simp [get?] at h
  | cons p d ih =>
    rw [get?] at h
    by_cases hk : (p.1 == key) = true
    · rw [if_pos hk, Option.some.injEq] at h
      exact ⟨p.1, hk, by simp [← h]⟩
    · rw [if_neg hk] at h
      obtain ⟨k, hkey, hmem⟩ := ih h
      exact ⟨k, hkey, List.mem_cons_of_mem p hmem⟩

theorem mem_of_get? [LawfulBEq κ] (h : get? key d = some v) : (key, v) ∈ d := by
  obtain ⟨k, hk, hmem⟩ := exists_mem_of_get? h
  rwa [← eq_of_beq hk]

theorem get?_ne_none [LawfulBEq κ] (h : (key, v) ∈ d) : get? key d ≠ none := by
  induction d with
  | nil => simp at h
  | cons p d ih =>
    rw [get?]
    split
    · simp
    · rcases List.mem_cons.mp h with rfl | h
      · simp_all
      · exact ih h

/-- A key that equals itself is found where it is set. -/
theorem isSome_get? {p : κ × α} (hself : (p.1 == p.1) = true)
    (hp : p ∈ d) : (get? p.1 d).isSome = true := by
  induction d with
  | nil => simp at hp
  | cons q d ih =>
    rw [get?]
    split
    · rfl
    · next hq =>
      rcases List.mem_cons.mp hp with rfl | hp
      · exact absurd hself hq
      · exact ih hp

/-- A key that equals itself and no other one holds the value that it is set to. -/
theorem get?_of_mem (hself : (key == key) = true) (hd : d.Pairwise fun p q => (p.1 == q.1) = false)
    (h : (key, v) ∈ d) : get? key d = some v := by
  induction d with
  | nil => simp at h
  | cons p d ih =>
    obtain ⟨hp, hrest⟩ := List.pairwise_cons.mp hd
    rw [get?]
    split
    · next hkey =>
      rcases List.mem_cons.mp h with rfl | h
      · rfl
      · exact absurd hkey (by rw [hp _ h]; exact Bool.false_ne_true)
    · next hkey =>
      rcases List.mem_cons.mp h with rfl | h
      · exact absurd hself hkey
      · exact ih hrest h

theorem get?_append (key : κ) (d e : Dictionary κ α) : get? key (d ++ e) = (get? key d).or (get? key e) := by
  induction d with
  | nil => rfl
  | cons p d ih =>
    rw [List.cons_append, get?, get?, ih]
    split <;> rfl

theorem get?_append_eq_none {e : Dictionary κ α} :
    get? key (d ++ e) = none ↔ get? key d = none ∧ get? key e = none := by
  rw [get?_append, Option.or_eq_none_iff]

theorem get?_append_one [LawfulBEq κ] {k : κ} :
    get? key (d ++ [(k, v)]) = none ↔ get? key d = none ∧ k ≠ key := by
  rw [get?_append_eq_none]
  simp [get?]

theorem insert_ne_nil : insert key v d ≠ [] := by
  cases d with
  | nil => simp [insert]
  | cons p d =>
    rw [insert]
    split <;> simp

/-- What a dictionary holds after a key is set: the new value under that key or an equal one, and what it held. -/
theorem mem_insert {p : κ × α} (h : p ∈ insert key v d) :
    ((p.1 = key ∨ (p.1 == key) = true) ∧ p.2 = v) ∨ p ∈ d := by
  induction d with
  | nil =>
    obtain rfl : p = (key, v) := by simpa [insert] using h
    exact .inl ⟨.inl rfl, rfl⟩
  | cons q d ih =>
    rw [insert] at h
    split at h
    · next hq =>
      rcases List.mem_cons.mp h with rfl | h
      · exact .inl ⟨.inr hq, rfl⟩
      · exact .inr (List.mem_cons_of_mem q h)
    · rcases List.mem_cons.mp h with rfl | h
      · exact .inr List.mem_cons_self
      · exact (ih h).imp_right (List.mem_cons_of_mem q)

theorem forall_insert {P : α → Prop} (hv : P v) (hd : ∀ p ∈ d, P p.2) :
    ∀ p ∈ insert key v d, P p.2 := by
  intro p hp
  rcases mem_insert hp with ⟨_, hpv⟩ | hp
  · rw [hpv]
    exact hv
  · exact hd p hp

theorem forall_insertMany {P : α → Prop} {entries : Dictionary κ α} (hd : ∀ p ∈ d, P p.2)
    (hentries : ∀ p ∈ entries, P p.2) : ∀ p ∈ insertMany d entries, P p.2 := by
  induction entries generalizing d with
  | nil => exact hd
  | cons q entries ih =>
    have hq : ∀ p ∈ insert q.1 q.2 d, P p.2 := forall_insert (hentries q (by simp)) hd
    exact ih hq fun p hp => hentries p (by simp [hp])

theorem forall_ofList {P : α → Prop} {entries : List (κ × α)} (h : ∀ p ∈ entries, P p.2) :
    ∀ p ∈ ofList entries, P p.2 :=
  forall_insertMany (by simp) h

/-- A key that is not there is set at the end. -/
theorem insert_of_get?_eq_none (h : get? key d = none) (v : α) : insert key v d = d ++ [(key, v)] := by
  induction d with
  | nil => rfl
  | cons p d ih =>
    rw [get?] at h
    by_cases hp : (p.1 == key) = true
    · rw [if_pos hp] at h
      exact (Option.some_ne_none _ h).elim
    · rw [if_neg hp] at h
      rw [insert, if_neg hp, ih h, List.cons_append]

theorem insert_eq_append [LawfulBEq κ] (h : ∀ p ∈ d, p.1 ≠ key) (v : α) : insert key v d = d ++ [(key, v)] := by
  refine insert_of_get?_eq_none (Option.eq_none_iff_forall_ne_some.mpr fun w hw => ?_) v
  exact h _ (mem_of_get? hw) rfl

/-- A key that is there is set in place. -/
theorem exists_insert_eq (h : get? key d = some v) : ∃ k before after, (k == key) = true ∧
    d = before ++ (k, v) :: after ∧ ∀ w, insert key w d = before ++ (k, w) :: after := by
  induction d with
  | nil => exact nomatch h
  | cons p d ih =>
    rw [get?] at h
    by_cases hp : (p.1 == key) = true
    · rw [if_pos hp] at h
      obtain rfl := Option.some.inj h
      exact ⟨p.1, [], d, hp, rfl, fun w => by rw [insert, if_pos hp, List.nil_append]⟩
    · rw [if_neg hp] at h
      obtain ⟨k, before, after, hk, hd, hinsert⟩ := ih h
      refine ⟨k, p :: before, after, hk, by rw [hd, List.cons_append], fun w => ?_⟩
      rw [insert, if_neg hp, hinsert, List.cons_append]

/-- A key that is set is added at the end unless an equal one is there. -/
theorem keys_insert (key : κ) (v : α) (d : Dictionary κ α) :
    keys (insert key v d) = if contains key d then keys d else keys d ++ [key] := by
  rw [contains]
  cases h : get? key d with
  | none =>
    rw [insert_of_get?_eq_none h]
    simp [keys]
  | some w =>
    obtain ⟨k, before, after, -, rfl, hinsert⟩ := exists_insert_eq h
    rw [hinsert]
    simp [keys]

theorem ofList_append_one (entries : List (κ × α)) (e : κ × α) :
    ofList (entries ++ [e]) = insert e.1 e.2 (ofList entries) := by
  rw [ofList, insertMany, List.foldl_append]
  rfl

theorem mem_of_mem_keys_ofList {entries : List (κ × α)} (h : key ∈ keys (ofList entries)) :
    key ∈ entries.map Prod.fst := by
  induction entries using List.reverseRecOn with
  | nil => exact nomatch h
  | append_singleton entries e ih =>
    rw [List.map_append, List.mem_append]
    rw [ofList_append_one, keys_insert] at h
    split at h
    · exact .inl (ih h)
    · rcases List.mem_append.mp h with h | h
      · exact .inl (ih h)
      · exact .inr h

/-- Setting what is there already changes nothing. -/
theorem insert_of_get? (h : get? key d = some v) : insert key v d = d := by
  obtain ⟨k, before, after, -, hd, hinsert⟩ := exists_insert_eq h
  rw [hinsert, hd]

/-- Setting a key that equals no other one changes its value alone. -/
theorem insert_eq_map (hd : d.Pairwise fun p q => (p.1 == q.1) = false) (h : get? key d = some v)
    (hkey : ∀ {k l : κ}, (k == key) = true → (l == key) = true → (k == l) = true) (w : α) :
    insert key w d = d.map fun p => if (p.1 == key) = true then (p.1, w) else p := by
  induction d with
  | nil => exact nomatch h
  | cons p d ih =>
    obtain ⟨hp, hrest⟩ := List.pairwise_cons.mp hd
    rw [get?] at h
    rw [insert, List.map_cons]
    by_cases hpkey : (p.1 == key) = true
    · have hothers : ∀ q ∈ d, ¬(q.1 == key) = true := by
        intro q hq hqkey
        exact absurd (hkey hpkey hqkey) (by rw [hp q hq]; exact Bool.false_ne_true)
      rw [if_pos hpkey, if_pos hpkey, List.map_congr_left fun q hq => if_neg (hothers q hq), List.map_id']
    · rw [if_neg hpkey] at h
      rw [if_neg hpkey, if_neg hpkey, ih hrest h]

/-- Of two values set under one key the last one counts. -/
theorem insert_insert (h : (key == key) = true) (v w : α) (d : Dictionary κ α) :
    insert key w (insert key v d) = insert key w d := by
  induction d with
  | nil => simp [insert, h]
  | cons p d ih => by_cases hp : (p.1 == key) = true <;> simp [insert, hp, ih]

/-- Keys that differ from each other and from those that are there are set at the end. -/
theorem insertMany_eq_append {entries : Dictionary κ α} (hd : ∀ p ∈ entries, get? p.1 d = none)
    (hentries : entries.Pairwise fun p q => (p.1 == q.1) = false) : insertMany d entries = d ++ entries := by
  induction entries generalizing d with
  | nil => simp [insertMany]
  | cons p entries ih =>
    obtain ⟨hp, hrest⟩ := List.pairwise_cons.mp hentries
    have hinsert := insert_of_get?_eq_none (hd p List.mem_cons_self) p.2
    have hfree : ∀ q ∈ entries, get? q.1 (d ++ [p]) = none := by
      intro q hq
      have hone : get? q.1 [p] = none := by rw [get?, hp q hq, if_neg Bool.false_ne_true, get?]
      exact get?_append_eq_none.mpr ⟨hd q (List.mem_cons_of_mem p hq), hone⟩
    have hstep : insertMany d (p :: entries) = insertMany (d ++ [p]) entries := by
      rw [insertMany, List.foldl_cons, hinsert]
      rfl
    rw [hstep, ih hfree hrest, List.append_assoc, List.singleton_append]

theorem ofList_eq_self {entries : Dictionary κ α}
    (h : entries.Pairwise fun p q => (p.1 == q.1) = false) : ofList entries = entries :=
  insertMany_eq_append (fun _ _ => rfl) h

/-- Setting a key changes nothing under the others. -/
theorem filter_insert [LawfulBEq κ] (key : κ) (v : α) (d : Dictionary κ α) :
    (insert key v d).filter (fun p => p.1 != key) = d.filter fun p => p.1 != key := by
  induction d with
  | nil => simp [insert]
  | cons p d ih =>
    rw [insert]
    split
    · next hp => simp [eq_of_beq hp]
    · rw [List.filter_cons, List.filter_cons, ih]

/-- Leaving out entries under other keys does not change what is found under a key. -/
theorem get?_filter {p : κ × α → Bool} (h : ∀ e ∈ d, (e.1 == key) = true → p e = true) :
    get? key (d.filter p) = get? key d := by
  induction d with
  | nil => rfl
  | cons e d ih =>
    obtain ⟨he, hd⟩ := List.forall_mem_cons.mp h
    rw [List.filter_cons, get?]
    by_cases hkey : (e.1 == key) = true
    · rw [if_pos (he hkey), get?, if_pos hkey, if_pos hkey]
    · rw [if_neg hkey, ← ih hd]
      split
      · rw [get?, if_neg hkey]
      · rfl

/-- A relation between the keys of a dictionary is kept if it holds between them and the key that is set. -/
theorem pairwise_insert [LawfulBEq κ] {R : κ → κ → Prop} (hd : d.Pairwise fun p q => R p.1 q.1)
    (hkey : ∀ p ∈ d, p.1 ≠ key → R p.1 key) (v : α) : (insert key v d).Pairwise fun p q => R p.1 q.1 := by
  induction d with
  | nil => exact List.pairwise_singleton _ _
  | cons p d ih =>
    obtain ⟨hp, hrest⟩ := List.pairwise_cons.mp hd
    rw [insert]
    split
    · exact List.pairwise_cons.mpr ⟨hp, hrest⟩
    · next hne =>
      refine List.pairwise_cons.mpr ⟨?_, ih hrest fun q hq => hkey q (by simp [hq])⟩
      intro q hq
      rcases mem_insert hq with ⟨hq, _⟩ | hq
      · have hsame : q.1 = key := hq.elim id eq_of_beq
        rw [hsame]
        exact hkey p (by simp) (by simpa using hne)
      · exact hp q hq

section

variable [LawfulBEq κ]

/-- What a dictionary holds after a key is set is the new value under that key, and what it held under the others. -/
theorem mem_insert_iff (hd : d.Pairwise fun p q => p.1 ≠ q.1) {p : κ × α} :
    p ∈ insert key v d ↔ p = (key, v) ∨ (p ∈ d ∧ p.1 ≠ key) := by
  induction d with
  | nil => simp [insert]
  | cons q d ih =>
    obtain ⟨hq, hrest⟩ := List.pairwise_cons.mp hd
    rw [insert]
    split
    · next hkey =>
      have hsame : q.1 = key := eq_of_beq hkey
      have hothers : p ∈ d → p.1 ≠ key := fun hp hpkey => hq p hp (hsame.trans hpkey.symm)
      rw [List.mem_cons, List.mem_cons, hsame]
      constructor
      · rintro (hp | hp)
        · exact .inl hp
        · exact .inr ⟨.inr hp, hothers hp⟩
      · rintro (hp | ⟨rfl | hp, hne⟩)
        · exact .inl hp
        · exact absurd hsame hne
        · exact .inr hp
    · next hkey =>
      have hother : q.1 ≠ key := fun h => hkey (beq_iff_eq.mpr h)
      rw [List.mem_cons, ih hrest, List.mem_cons]
      constructor
      · rintro (rfl | hp | hp)
        · exact .inr ⟨.inl rfl, hother⟩
        · exact .inl hp
        · exact .inr ⟨.inr hp.1, hp.2⟩
      · rintro (hp | ⟨rfl | hp, hne⟩)
        · exact .inr (.inl hp)
        · exact .inl rfl
        · exact .inr (.inr ⟨hp, hne⟩)

theorem pairwise_insertMany {entries : Dictionary κ α} (hd : d.Pairwise fun p q => p.1 ≠ q.1) :
    (insertMany d entries).Pairwise fun p q => p.1 ≠ q.1 := by
  induction entries generalizing d with
  | nil => exact hd
  | cons e entries ih => exact ih (pairwise_insert hd (fun _ _ hne => hne) e.2)

/-- Of several entries under one key the last one counts. -/
theorem mem_insertMany_iff {entries : Dictionary κ α} (hd : d.Pairwise fun p q => p.1 ≠ q.1) {p : κ × α} :
    p ∈ insertMany d entries ↔
      (∃ after, p :: after <:+ entries ∧ ∀ e ∈ after, e.1 ≠ p.1) ∨ (p ∈ d ∧ ∀ e ∈ entries, e.1 ≠ p.1) := by
  induction entries generalizing d with
  | nil => simp [insertMany]
  | cons e entries ih =>
    have hstep : insertMany d (e :: entries) = insertMany (insert e.1 e.2 d) entries := rfl
    rw [hstep, ih (pairwise_insert hd (fun _ _ hne => hne) e.2), mem_insert_iff hd, List.forall_mem_cons]
    constructor
    · rintro (⟨after, hsuffix, hafter⟩ | ⟨rfl | ⟨hp, hne⟩, hafter⟩)
      · exact .inl ⟨after, hsuffix.trans (List.suffix_cons e entries), hafter⟩
      · exact .inl ⟨entries, List.suffix_refl _, hafter⟩
      · exact .inr ⟨hp, hne.symm, hafter⟩
    · rintro (⟨after, hsuffix, hafter⟩ | ⟨hp, hne, hafter⟩)
      · rcases List.suffix_cons_iff.mp hsuffix with hall | hsuffix
        · obtain ⟨rfl, rfl⟩ := List.cons.inj hall
          exact .inr ⟨.inl rfl, hafter⟩
        · exact .inl ⟨after, hsuffix, hafter⟩
      · exact .inr ⟨.inr ⟨hp, hne.symm⟩, hafter⟩

theorem mem_ofList_iff {entries : Dictionary κ α} {p : κ × α} :
    p ∈ ofList entries ↔ ∃ after, p :: after <:+ entries ∧ ∀ e ∈ after, e.1 ≠ p.1 := by
  simp [ofList, mem_insertMany_iff List.Pairwise.nil]

variable {β : Type} {parts : κ × α → List β}

/-- Setting a key adds the parts of the entry, and takes those of the entry that it replaces. -/
theorem length_flatMap_insert (parts : κ × α → List β) (key : κ) (v : α) (d : Dictionary κ α) :
    (get? key d = none ∧ ((insert key v d).flatMap parts).length = (d.flatMap parts).length + (parts (key, v)).length) ∨
      ∃ w, get? key d = some w ∧ ((insert key v d).flatMap parts).length + (parts (key, w)).length =
        (d.flatMap parts).length + (parts (key, v)).length := by
  cases h : get? key d with
  | none =>
    refine .inl ⟨rfl, ?_⟩
    rw [insert_of_get?_eq_none h, List.flatMap_append, List.length_append, List.flatMap_singleton]
  | some w =>
    obtain ⟨k, before, after, hk, rfl, hinsert⟩ := exists_insert_eq h
    obtain rfl := eq_of_beq hk
    refine .inr ⟨w, rfl, ?_⟩
    rw [hinsert]
    simp only [List.flatMap_append, List.flatMap_cons, List.length_append]
    omega

/-- Entries that all have parts keep them together only if none of them replaces another. -/
theorem length_flatMap_insertMany (hparts : ∀ p, parts p ≠ []) (d entries : Dictionary κ α) :
    ((insertMany d entries).flatMap parts).length ≤ (d.flatMap parts).length + (entries.flatMap parts).length ∧
      (((insertMany d entries).flatMap parts).length = (d.flatMap parts).length + (entries.flatMap parts).length →
        (∀ e ∈ entries, get? e.1 d = none) ∧ entries.Pairwise fun p q => p.1 ≠ q.1) := by
  induction entries generalizing d with
  | nil => simp [insertMany]
  | cons e entries ih =>
    obtain ⟨key, v⟩ := e
    have hstep : insertMany d ((key, v) :: entries) = insertMany (insert key v d) entries := rfl
    obtain ⟨hle, hexact⟩ := ih (insert key v d)
    rw [hstep, List.flatMap_cons, List.length_append]
    rcases length_flatMap_insert parts key v d with ⟨hnone, hlength⟩ | ⟨w, _, hlength⟩
    · refine ⟨by omega, fun heq => ?_⟩
      obtain ⟨hfree, hdistinct⟩ := hexact (by omega)
      have hboth : ∀ p ∈ entries, get? p.1 d = none ∧ key ≠ p.1 := by
        intro p hp
        have hp := hfree p hp
        rw [insert_of_get?_eq_none hnone] at hp
        exact get?_append_one.mp hp
      refine ⟨List.forall_mem_cons.mpr ⟨hnone, fun p hp => (hboth p hp).1⟩, ?_⟩
      exact List.pairwise_cons.mpr ⟨fun p hp => (hboth p hp).2, hdistinct⟩
    · have hlost : 0 < (parts (key, w)).length := List.length_pos_iff.mpr (hparts (key, w))
      exact ⟨by omega, fun heq => by omega⟩

theorem length_flatMap_ofList_le (hparts : ∀ p, parts p ≠ []) (entries : Dictionary κ α) :
    ((ofList entries).flatMap parts).length ≤ (entries.flatMap parts).length := by
  simpa [ofList] using (length_flatMap_insertMany hparts [] entries).1

theorem length_flatMap_ofList_eq_iff (hparts : ∀ p, parts p ≠ []) (entries : Dictionary κ α) :
    ((ofList entries).flatMap parts).length = (entries.flatMap parts).length ↔
      entries.Pairwise fun p q => p.1 ≠ q.1 := by
  constructor
  · intro heq
    exact ((length_flatMap_insertMany hparts [] entries).2 (by simpa [ofList] using heq)).2
  · intro hdistinct
    rw [ofList_eq_self (hdistinct.imp fun hne => beq_eq_false_iff_ne.mpr hne)]

theorem length_ofList_le (entries : Dictionary κ α) : (ofList entries).length ≤ entries.length := by
  simpa using length_flatMap_ofList_le (fun e => List.cons_ne_nil e []) entries

theorem length_ofList_eq_iff (entries : Dictionary κ α) :
    (ofList entries).length = entries.length ↔ entries.Pairwise fun p q => p.1 ≠ q.1 := by
  simpa using length_flatMap_ofList_eq_iff (fun e => List.cons_ne_nil e []) entries

end

end EntityStore.Dictionary

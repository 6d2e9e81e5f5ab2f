import EntityStore.Proofs.Filter.Entries
import EntityStore.Proofs.Query.Naming
import Mathlib.Data.List.Nodup
import Mathlib.Data.Set.List

namespace EntityStore

namespace Dictionary

variable {κ κ' α : Type}

section

variable [BEq κ] {d : Dictionary κ α} {key : κ} {v : α}

theorem contains_iff [LawfulBEq κ] : contains key d = true ↔ key ∈ keys d := by
  rw [contains, Option.isSome_iff_ne_none]
  constructor
  · intro h
    obtain ⟨v, hv⟩ := Option.ne_none_iff_exists'.mp h
    exact List.mem_map_of_mem (mem_of_get? hv)
  · intro h
    obtain ⟨p, hp, rfl⟩ := List.mem_map.mp h
    exact get?_ne_none hp

theorem exists_mem_keys_ofList {entries : List (κ × α)} (h : key ∈ entries.map Prod.fst) :
    ∃ k ∈ keys (ofList entries), k = key ∨ (k == key) = true := by
  induction entries using List.reverseRecOn with
  | nil => exact nomatch h
  | append_singleton entries e ih =>
    rw [ofList_append_one, keys_insert]
    rw [List.map_append, List.mem_append, List.map_singleton, List.mem_singleton] at h
    split
    · next hthere =>
      rcases h with h | rfl
      · exact ih h
      · obtain ⟨v, hv⟩ := Option.isSome_iff_exists.mp hthere
        obtain ⟨k, hk, hmem⟩ := exists_mem_of_get? hv
        exact ⟨k, List.mem_map_of_mem hmem, .inr hk⟩
    · rcases h with h | rfl
      · obtain ⟨k, hmem, hk⟩ := ih h
        exact ⟨k, List.mem_append_left _ hmem, hk⟩
      · exact ⟨e.1, List.mem_append_right _ List.mem_cons_self, .inl rfl⟩

/-- The keys of entries that are set one after the other, each where it is set first. -/
theorem keys_ofList [LawfulBEq κ] (entries : List (κ × α)) :
    keys (ofList entries) = distinct (entries.map Prod.fst) := by
  induction entries using List.reverseRecOn with
  | nil => rfl
  | append_singleton entries e ih =>
    have hmem : contains e.1 (ofList entries) = (entries.map Prod.fst).contains e.1 := by
      rw [Bool.eq_iff_iff, contains_iff, ih, mem_distinct, List.contains_iff_mem]
    rw [ofList_append_one, keys_insert, hmem, ih, List.map_append, List.map_singleton, distinct_append_one]

end

section

variable [BEq κ] [BEq κ'] {f : κ → κ'} (hf : ∀ j k, (f j == f k) = (j == k))
include hf

theorem distinct_map (ks : List κ) : distinct (ks.map f) = (distinct ks).map f := by
  induction ks with
  | nil => rfl
  | cons k ks ih =>
    rw [List.map_cons, distinct, distinct, ih, List.filter_map, List.map_cons]
    congr 2
    exact List.filter_congr fun j _ => by rw [Function.comp_apply, hf]

theorem insert_map (key : κ) (v : α) (d : Dictionary κ α) :
    insert (f key) v (d.map fun p => (f p.1, p.2)) = (insert key v d).map fun p => (f p.1, p.2) := by
  induction d with
  | nil => rfl
  | cons p d ih =>
    rw [List.map_cons, insert, insert, hf, ih]
    split <;> rfl

/-- Other names for the keys, which are equal where the keys are. -/
theorem ofList_map (entries : List (κ × α)) :
    ofList (entries.map fun p => (f p.1, p.2)) = (ofList entries).map fun p => (f p.1, p.2) := by
  induction entries using List.reverseRecOn with
  | nil => rfl
  | append_singleton entries e ih =>
    rw [List.map_append, List.map_singleton, ofList_append_one, ofList_append_one, ih, insert_map hf]

end

end Dictionary

namespace SortOrder

/-- What comes of a sort order where a field is set. A step that fails changes nothing. -/
def attempt (s : SortOrder) (step : Value × Value) : SortOrder :=
  match s.set step.1 step.2 with
  | .ok s => s
  | .error _ => s

/-- The sort order that fields are set in, one after the other. -/
def afterSteps (steps : List (Value × Value)) : SortOrder := steps.foldl attempt empty

/-- What a step sets, if it succeeds: the name is one that can be looked up, and the direction is one. -/
def recorded? : Value × Value → Option (Value × Direction)
  | (name, .direction d) => if name.unhashable?.isNone then some (name, d) else none
  | _ => none

/-- What the steps that succeed set, in order. -/
def recorded (steps : List (Value × Value)) : List (Value × Direction) := steps.filterMap recorded?

/-- Whether a name was set to a direction, and to no other one afterwards. -/
def IsSetLast (entries : List (Value × Direction)) (name : Value) (d : Direction) : Prop :=
  ∃ after, (name, d) :: after <:+ entries ∧ ∀ e ∈ after, e.1 ≠ name

theorem orders_attempt (s : SortOrder) (step : Value × Value) :
    (s.attempt step).orders = (recorded? step).elim s.orders fun e => Dictionary.insert e.1 e.2 s.orders := by
  obtain ⟨name, direction⟩ := step
  cases direction with
  | direction d =>
    cases h : name.unhashable? <;> simp [attempt, set, recorded?, Value.asKey, h, pure, Except.pure]
  | _ => rfl

theorem orders_afterSteps (steps : List (Value × Value)) :
    (afterSteps steps).orders = Dictionary.ofList (recorded steps) := by
  induction steps using List.reverseRecOn with
  | nil => rfl
  | append_singleton steps step ih =>
    have hstep : afterSteps (steps ++ [step]) = (afterSteps steps).attempt step := by simp [afterSteps]
    rw [hstep, orders_attempt, ih, recorded, recorded, List.filterMap_append]
    cases h : recorded? step with
    | none => simp [h]
    | some e => simp [h, Dictionary.ofList_append_one]

theorem unhashable?_of_recorded {steps : List (Value × Value)} {name : Value}
    (h : name ∈ (recorded steps).map Prod.fst) : name.unhashable? = none := by
  obtain ⟨e, he, rfl⟩ := List.mem_map.mp h
  obtain ⟨⟨name, direction⟩, -, hstep⟩ := List.mem_filterMap.mp he
  cases direction with
  | direction d =>
    rw [recorded?] at hstep
    split at hstep
    · next hname =>
      obtain rfl := Option.some.inj hstep
      exact Option.isNone_iff_eq_none.mp hname
    · exact nomatch hstep
  | _ => exact nomatch hstep

end SortOrder

namespace Mapping

variable {m : Mapping} {name : Value}

theorem exists_text_of_mapsName (h : m.mapsName name = true) : ∃ s, name = .text s := by
  cases name with
  | text s => exact ⟨s, rfl⟩
  | _ => exact absurd h Bool.false_ne_true

theorem exists_storageField (h : m.mapsName name = true) : ∃ storage, m.storageField name = .ok storage := by
  obtain ⟨s, rfl⟩ := exists_text_of_mapsName h
  exact ⟨_, (storageField_text m s).trans (if_pos h)⟩

/-- A name without a storage name is refused, and is shown in the refusal. -/
theorem storageField_of_not_mapsName (hkey : name.unhashable? = none) (h : m.mapsName name = false) :
    m.storageField name = name.display >>= fun shown => .error (.unmappedField shown m.collection) := by
  by_cases htext : ∃ s, name = .text s
  · obtain ⟨s, rfl⟩ := htext
    have hno : ¬m.maps s = true := Bool.eq_false_iff.mp h
    rw [storageField_text, if_neg hno]
    rfl
  · have hnative : (name == .text nativeField) = false :=
      Bool.eq_false_iff.mpr fun heq => htext ⟨_, (Value.beq_text _ _).mp heq⟩
    rw [storageField, hnative, if_neg Bool.false_ne_true, Value.asKey, hkey, Outcome.ok_bind]
    exact fun s hs => htext ⟨s, hs⟩

end Mapping

namespace SortOrder

variable {m : Mapping} {s : SortOrder} {keys : SortKeys}

/-- The keys of a sort order are the storage names of its fields, in order. -/
theorem forall₂_keys (h : (sortKeysOf (some s) m).outcome = .ok keys) :
    List.Forall₂ (fun order key => m.storageField order.1 = .ok key.1 ∧ key.2 = order.2.sign) s.orders keys := by
  rw [outcome_sortKeysOf] at h
  refine (Outcome.mapM_eq_ok_iff.mp h).imp fun order key hkey => ?_
  obtain ⟨field, hfield, hkey⟩ := Outcome.bind_eq_ok.mp hkey
  obtain rfl := Except.ok.inj hkey
  exact ⟨hfield, rfl⟩

/-- A sort order fails with what one of its names fails with. -/
theorem exists_order_of_error {e : Failure} (h : (sortKeysOf (some s) m).outcome = .error e) :
    ∃ order ∈ s.orders, m.storageField order.1 = .error e := by
  rw [outcome_sortKeysOf] at h
  obtain ⟨order, horder, hfails⟩ := Outcome.exists_mem_of_mapM_error h
  have hfails : (m.storageField order.1 >>= fun field => pure (field, order.2.sign)) = .error e := hfails
  refine ⟨order, horder, ?_⟩
  cases hfield : m.storageField order.1 with
  | error d =>
    rw [hfield, Outcome.error_bind, Except.error.injEq] at hfails
    rw [hfails]
  | ok field =>
    rw [hfield] at hfails
    exact nomatch hfails

section

variable {steps : List (Value × Value)}

/-- The keys of a sort order are refused if and only if a name that was set has no storage name. -/
theorem exists_error_iff :
    (∃ e, (sortKeysOf (some (afterSteps steps)) m).outcome = .error e) ↔
      ∃ name ∈ (recorded steps).map Prod.fst, m.mapsName name = false := by
  constructor
  · rintro ⟨e, he⟩
    obtain ⟨order, horder, hfails⟩ := exists_order_of_error he
    rw [orders_afterSteps] at horder
    refine ⟨order.1, Dictionary.mem_of_mem_keys_ofList (List.mem_map_of_mem horder), ?_⟩
    by_contra hmapped
    obtain ⟨storage, hstorage⟩ := Mapping.exists_storageField (by simpa using hmapped)
    exact Outcome.ok_ne_error hstorage hfails
  · rintro ⟨name, hname, hno⟩
    cases houtcome : (sortKeysOf (some (afterSteps steps)) m).outcome with
    | error e => exact ⟨e, rfl⟩
    | ok keys =>
      obtain ⟨k, hk, hsame⟩ := Dictionary.exists_mem_keys_ofList hname
      have hmapped : m.mapsName k = true := by
        by_contra hunmapped
        have hkey := unhashable?_of_recorded (Dictionary.mem_of_mem_keys_ofList hk)
        have hfield := Mapping.storageField_of_not_mapsName hkey (by simpa using hunmapped)
        rw [← orders_afterSteps] at hk
        obtain ⟨order, horder, rfl⟩ := List.mem_map.mp hk
        rw [outcome_sortKeysOf] at houtcome
        obtain ⟨key, hmade⟩ := Outcome.mapM_ok_mem houtcome order horder
        obtain ⟨storage, hstorage, -⟩ := Outcome.bind_eq_ok.mp hmade
        obtain ⟨shown, -, hrefused⟩ := Outcome.bind_eq_ok.mp (hfield.symm.trans hstorage)
        exact nomatch hrefused
      -- A key that has a storage name is a text, and equals nothing else.
      obtain ⟨s, rfl⟩ := Mapping.exists_text_of_mapsName hmapped
      have hname : name = .text s := hsame.elim Eq.symm (Value.text_beq s name).mp
      rw [hname, hmapped] at hno
      exact Bool.noConfusion hno

/-- All names are texts if they have storage names. -/
theorem exists_named (h : ∀ e ∈ recorded steps, m.mapsName e.1 = true) :
    ∃ named : List (String × Direction), recorded steps = named.map fun p => (.text p.1, p.2) := by
  have hrange : recorded steps ∈ Set.range (List.map fun p : String × Direction => (Value.text p.1, p.2)) := by
    rw [Set.range_list_map]
    intro e he
    obtain ⟨name, hname⟩ := Mapping.exists_text_of_mapsName (h e he)
    exact ⟨(name, e.2), Prod.ext hname.symm rfl⟩
  obtain ⟨named, hnamed⟩ := hrange
  exact ⟨named, hnamed.symm⟩

/-- What the steps set last, each name once and where it was set first. -/
theorem orders_named {named : List (String × Direction)}
    (h : recorded steps = named.map fun p => (.text p.1, p.2)) :
    (distinct ((recorded steps).map Prod.fst)).Nodup ∧
      (afterSteps steps).orders.map Prod.fst = distinct ((recorded steps).map Prod.fst) ∧
      ∀ order ∈ (afterSteps steps).orders, IsSetLast (recorded steps) order.1 order.2 := by
  have horders : (afterSteps steps).orders = (Dictionary.ofList named).map fun p => (.text p.1, p.2) := by
    rw [orders_afterSteps, h, Dictionary.ofList_map Value.text_beq_text]
  have hnames : (recorded steps).map Prod.fst = (named.map Prod.fst).map Value.text := by
    rw [h, List.map_map, List.map_map]
    rfl
  have hdistinct : distinct ((recorded steps).map Prod.fst) = (distinct (named.map Prod.fst)).map Value.text := by
    rw [hnames, Dictionary.distinct_map Value.text_beq_text]
  refine ⟨?_, ?_, fun order horder => ?_⟩
  · rw [hdistinct]
    exact List.Nodup.map (fun _ _ => Value.text.inj) (nodup_distinct _)
  · rw [horders, hdistinct, ← Dictionary.keys_ofList, Dictionary.keys, List.map_map, List.map_map]
    rfl
  · rw [horders] at horder
    obtain ⟨p, hp, rfl⟩ := List.mem_map.mp horder
    obtain ⟨after, hsuffix, hafter⟩ := Dictionary.mem_ofList_iff.mp hp
    refine ⟨after.map fun p => (.text p.1, p.2),
      h ▸ hsuffix.map fun q : String × Direction => (Value.text q.1, q.2), ?_⟩
    intro e he
    obtain ⟨q, hq, rfl⟩ := List.mem_map.mp he
    exact fun hname => hafter q hq (Value.text.inj hname)

end

end SortOrder

/-- The keys of a sort order that was set in any steps. They are refused if and only if a name that was set is neither
mapped nor that of the native field, and the refusal says so if the names can be shown, as texts can. Otherwise there is
one key for each name, where it was set first: its storage name with the direction that was set last. -/
theorem sortKeysOf_afterSteps (m : Mapping) (steps : List (Value × Value)) :
    let outcome := (sortKeysOf (some (SortOrder.afterSteps steps)) m).outcome
    let names := (SortOrder.recorded steps).map Prod.fst
    ((∃ e, outcome = .error e) ↔ ∃ name ∈ names, m.mapsName name = false) ∧
      ((∀ name ∈ names, name.display.isOk = true) → ∀ e, outcome = .error e → e.kind? = some .fieldMapping) ∧
      ((∀ name ∈ names, m.mapsName name = true) → (distinct names).Nodup ∧ ∃ keys, outcome = .ok keys ∧
        List.Forall₂ (fun name key => m.storageField name = .ok key.1 ∧
          ∃ d, SortOrder.IsSetLast (SortOrder.recorded steps) name d ∧ key.2 = d.sign) (distinct names) keys) := by
  intro outcome names
  refine ⟨SortOrder.exists_error_iff, fun hshown e he => ?_, fun hmapped => ?_⟩
  · obtain ⟨order, horder, hfails⟩ := SortOrder.exists_order_of_error he
    rw [SortOrder.orders_afterSteps] at horder
    have hname : order.1 ∈ names := Dictionary.mem_of_mem_keys_ofList (List.mem_map_of_mem horder)
    have hunmapped : m.mapsName order.1 = false := by
      by_contra hmapped
      obtain ⟨storage, hstorage⟩ := Mapping.exists_storageField (by simpa using hmapped)
      exact Outcome.ok_ne_error hstorage hfails
    obtain ⟨shown, hdisplay⟩ := Outcome.exists_of_isOk (hshown _ hname)
    rw [Mapping.storageField_of_not_mapsName (SortOrder.unhashable?_of_recorded hname) hunmapped, hdisplay,
      Outcome.ok_bind] at hfails
    obtain rfl := Except.error.inj hfails
    rfl
  · have hmapped' : ∀ e ∈ SortOrder.recorded steps, m.mapsName e.1 = true := fun e he =>
      hmapped e.1 (List.mem_map_of_mem he)
    obtain ⟨named, hnamed⟩ := SortOrder.exists_named hmapped'
    obtain ⟨honce, hnames, hlast⟩ := SortOrder.orders_named hnamed
    cases houtcome : outcome with
    | error e =>
      obtain ⟨name, hname, hno⟩ := SortOrder.exists_error_iff.mp ⟨e, houtcome⟩
      rw [hmapped name hname] at hno
      exact Bool.noConfusion hno
    | ok keys =>
      refine ⟨honce, keys, rfl, ?_⟩
      have hkeys := (List.forall₂_and_left _ _).mpr ⟨hlast, SortOrder.forall₂_keys houtcome⟩
      rw [← hnames, List.forall₂_map_left_iff]
      exact hkeys.imp fun order key ⟨hset, hfield, hsign⟩ => ⟨hfield, order.2, hset, hsign⟩

/-- Steps that set one name twice, with another one between, and a third one without a direction. -/
def SortOrder.renewedSteps : List (Value × Value) :=
  [(.text "name", .direction .ascending), (.text "_id", .direction .descending), (.text "age", .text "DESC"),
    (.text "name", .direction .descending)]

/-- A mapping of a name, to which the third field is unknown. -/
def Mapping.people : Mapping := ⟨"people", [("key", "key"), ("name", "full_name")], "key", false⟩

/-- The name still counts first, but in the direction that was set last. -/
theorem sortKeysOf_afterSteps_renewed :
    (∀ name ∈ (SortOrder.recorded SortOrder.renewedSteps).map Prod.fst, Mapping.people.mapsName name = true) ∧
      ∃ keys, (sortKeysOf (some (SortOrder.afterSteps SortOrder.renewedSteps)) Mapping.people).outcome = .ok keys ∧
        keys = [("full_name", -1), ("_id", -1)] := by
  have hmapped : ∀ name ∈ (SortOrder.recorded SortOrder.renewedSteps).map Prod.fst,
      Mapping.people.mapsName name = true := by decide +kernel
  obtain ⟨-, keys, hkeys, -⟩ := (sortKeysOf_afterSteps Mapping.people SortOrder.renewedSteps).2.2 hmapped
  refine ⟨hmapped, keys, hkeys, ?_⟩
  have hmade : (sortKeysOf (some (SortOrder.afterSteps SortOrder.renewedSteps)) Mapping.people).outcome =
      .ok [("full_name", -1), ("_id", -1)] := by decide +kernel
  exact Except.ok.inj (hkeys.symm.trans hmade)

end EntityStore

import EntityStore.ErrorKind
import EntityStore.Mapping.Validation
import EntityStore.Proofs.Dictionary
import EntityStore.Proofs.Document.Placing
import EntityStore.Proofs.Outcome
import EntityStore.Proofs.Path

namespace EntityStore

namespace Mapping

/-- A mapping that names its collection and its identity, stores no two fields in one place and none in a place
inside that of another, and stores an identity that the engine gives in the native field. -/
structure IsSound (m : Mapping) : Prop where
  named : m.collection ≠ ""
  identified : m.identity ∈ Dictionary.keys m.fields
  distinct : m.fields.Pairwise fun f g => f.2 ≠ g.2
  separate : ∀ f ∈ m.fields, ∀ g ∈ m.fields, ∀ rest : String, g.2 ≠ f.2 ++ "." ++ rest
  native : m.generatesIds = true → m.identityField = .ok nativeField

/-- Whether a failure names a reason for which a mapping is not sound, with the names that it is about. -/
def HasFault (m : Mapping) : Failure → Prop
  | .unnamedCollection => m.collection = ""
  | .identityUnmapped identity collection =>
    identity = m.identity ∧ collection = m.collection ∧ identity ∉ Dictionary.keys m.fields
  | .sharedStorage first second storage =>
    ∃ before after, m.fields = before ++ (second, storage) :: after ∧ (first, storage) ∈ before
  | .nestedStorage storage outer owner =>
    (∃ logical, (logical, storage) ∈ m.fields) ∧ (owner, outer) ∈ m.fields ∧ ∃ rest, storage = outer ++ "." ++ rest
  | .identityElsewhere identity storage =>
    identity = m.identity ∧ m.generatesIds = true ∧ m.identityField = .ok storage ∧ storage ≠ nativeField
  | _ => False

theorem HasFault.kind? {m : Mapping} {e : Failure} (h : m.HasFault e) : e.kind? = some .configuration := by
  cases e with
  | unnamedCollection | identityUnmapped _ _ | sharedStorage _ _ _ | nestedStorage _ _ _ | identityElsewhere _ _ => rfl
  | _ => exact h.elim

theorem HasFault.not_isSound {m : Mapping} {e : Failure} (h : m.HasFault e) : ¬m.IsSound := by
  intro hsound
  cases e with
  | unnamedCollection => exact hsound.named h
  | identityUnmapped identity collection =>
    obtain ⟨rfl, _, hmissing⟩ := h
    exact hmissing hsound.identified
  | sharedStorage first second storage =>
    obtain ⟨before, after, hfields, hfirst⟩ := h
    have hdistinct := hfields ▸ hsound.distinct
    exact (List.pairwise_append.mp hdistinct).2.2 _ hfirst _ List.mem_cons_self rfl
  | nestedStorage storage outer owner =>
    obtain ⟨⟨logical, hinner⟩, houter, rest, hinside⟩ := h
    exact hsound.separate _ houter _ hinner rest hinside
  | identityElsewhere identity storage =>
    obtain ⟨_, hgenerates, hstorage, hne⟩ := h
    exact hne (Except.ok.inj (hstorage.symm.trans (hsound.native hgenerates)))
  | _ => exact h.elim

theorem checkShared_ok {seen fields : Dictionary String String} (h : checkShared seen fields = .ok ()) :
    (∀ f ∈ fields, Dictionary.get? f.2 seen = none) ∧ fields.Pairwise fun f g => f.2 ≠ g.2 := by
  induction fields generalizing seen with
  | nil => simp
  | cons f fields ih =>
    rw [checkShared] at h
    cases hf : Dictionary.get? f.2 seen with
    | some first => simp [hf] at h
    | none =>
      rw [hf] at h
      obtain ⟨hseen, hrest⟩ := ih h
      have hne : ∀ g ∈ fields, Dictionary.get? g.2 seen = none ∧ f.2 ≠ g.2 := by
        intro g hg
        exact Dictionary.get?_append_one.mp (hseen g hg)
      refine ⟨?_, List.pairwise_cons.mpr ⟨fun g hg => (hne g hg).2, hrest⟩⟩
      intro g hg
      rcases List.mem_cons.mp hg with rfl | hg
      · exact hf
      · exact (hne g hg).1

theorem checkNested_ok {owners : Dictionary String String} {names : List String}
    (h : checkNested owners names = .ok ()) : ∀ s ∈ names, outerField? owners s = none := by
  induction names with
  | nil => simp
  | cons name names ih =>
    rw [checkNested] at h
    cases hname : outerField? owners name with
    | some outer => simp [hname] at h
    | none =>
      rw [hname] at h
      intro s hs
      rcases List.mem_cons.mp hs with rfl | hs
      · exact hname
      · exact ih h s hs

theorem checkShared_error {seen fields : Dictionary String String} {e : Failure}
    (h : checkShared seen fields = .error e) : ∃ first second storage before after,
      e = .sharedStorage first second storage ∧ fields = before ++ (second, storage) :: after ∧
        ((storage, first) ∈ seen ∨ (first, storage) ∈ before) := by
  induction fields generalizing seen with
  | nil => exact nomatch h
  | cons f fields ih =>
    obtain ⟨logical, storage⟩ := f
    rw [checkShared] at h
    cases hseen : Dictionary.get? storage seen with
    | some first =>
      rw [hseen] at h
      exact ⟨first, logical, storage, [], fields, (Except.error.inj h).symm, rfl, .inl (Dictionary.mem_of_get? hseen)⟩
    | none =>
      rw [hseen] at h
      obtain ⟨first, second, shared, before, after, he, rfl, hfirst⟩ := ih h
      refine ⟨first, second, shared, (logical, storage) :: before, after, he, rfl, ?_⟩
      -- What has been seen since is the field at the front.
      rcases hfirst with hfirst | hfirst
      · rcases List.mem_append.mp hfirst with hfirst | hfirst
        · exact .inl hfirst
        · obtain ⟨rfl, rfl⟩ := Prod.mk.inj (List.mem_singleton.mp hfirst)
          exact .inr List.mem_cons_self
      · exact .inr (List.mem_cons_of_mem _ hfirst)

theorem checkNested_error {owners : Dictionary String String} {names : List String} {e : Failure}
    (h : checkNested owners names = .error e) : ∃ storage ∈ names, ∃ outer owner,
      e = .nestedStorage storage outer owner ∧ outerField? owners storage = some (outer, owner) := by
  induction names with
  | nil => exact nomatch h
  | cons name names ih =>
    rw [checkNested] at h
    cases hname : outerField? owners name with
    | some outer =>
      rw [hname] at h
      exact ⟨name, List.mem_cons_self, outer.1, outer.2, (Except.error.inj h).symm, hname⟩
    | none =>
      rw [hname] at h
      obtain ⟨storage, hstorage, hfault⟩ := ih h
      exact ⟨storage, List.mem_cons_of_mem name hstorage, hfault⟩

theorem inside_of_outerField? {owners : Dictionary String String} {storage outer owner : String}
    (h : outerField? owners storage = some (outer, owner)) :
    (outer, owner) ∈ owners ∧ ∃ rest, storage = outer ++ "." ++ rest := by
  obtain ⟨p, hp, hget⟩ := List.exists_of_findSome?_eq_some h
  obtain ⟨_, howner, heq⟩ := Option.map_eq_some_iff.mp hget
  obtain ⟨rfl, rfl⟩ := Prod.mk.inj heq
  exact ⟨Dictionary.mem_of_get? howner, Path.exists_mem_ancestors_iff.mp ⟨p, hp, rfl⟩⟩

theorem not_inside_of_outerField? {owners : Dictionary String String} {storage outer owner : String}
    (h : outerField? owners storage = none) (howner : (outer, owner) ∈ owners) (rest : String) :
    storage ≠ outer ++ "." ++ rest := by
  intro hinside
  obtain ⟨p, hp, htext⟩ := Path.exists_mem_ancestors_iff.mpr ⟨rest, hinside⟩
  have hnone := List.findSome?_eq_none_iff.mp h p hp
  rw [htext] at hnone
  exact Dictionary.get?_ne_none howner (by simpa using hnone)

theorem mem_logicalFields {m : Mapping} {logical storage : String} :
    (storage, logical) ∈ m.logicalFields ↔ (logical, storage) ∈ m.fields := by
  simp [logicalFields]

variable {m : Mapping}

theorem isSound_of_validate (h : m.validate = .ok ()) : m.IsSound := by
  obtain ⟨_, hcollection, h⟩ := Outcome.bind_eq_ok.mp h
  have hnamed : m.collection ≠ "" := by
    intro hempty
    rw [checkCollection, if_pos hempty] at hcollection
    exact nomatch hcollection
  cases hidentity : Dictionary.get? m.identity m.fields with
  | none => simp [hidentity] at h
  | some field =>
    simp only [hidentity] at h
    obtain ⟨_, hshared, h⟩ := Outcome.bind_eq_ok.mp h
    obtain ⟨_, hnested, h⟩ := Outcome.bind_eq_ok.mp h
    refine ⟨hnamed, ?_, (checkShared_ok hshared).2, ?_, ?_⟩
    · exact List.mem_map_of_mem (Dictionary.mem_of_get? hidentity)
    · intro f hf g hg rest
      have houter := checkNested_ok hnested g.2 (List.mem_map_of_mem hg)
      exact not_inside_of_outerField? houter (mem_logicalFields.mpr hf) rest
    · intro hgenerates
      have hfield : m.identityField = .ok field := by rw [identityField, hidentity]
      rw [hfield]
      cases hne : field != nativeField with
      | false => exact congrArg Except.ok (by simpa using hne)
      | true => simp [hgenerates, hne] at h

theorem hasFault_of_validate {e : Failure} (h : m.validate = .error e) : m.HasFault e := by
  rw [validate, checkCollection] at h
  split at h
  · next hempty =>
    obtain rfl := Except.error.inj h
    exact hempty
  · rw [Outcome.ok_bind] at h
    cases hidentity : Dictionary.get? m.identity m.fields with
    | none =>
      rw [hidentity] at h
      obtain rfl := Except.error.inj h
      refine ⟨rfl, rfl, fun hmem => ?_⟩
      obtain ⟨f, hf, hkey⟩ := List.mem_map.mp hmem
      rw [← hkey] at hidentity
      exact Dictionary.get?_ne_none hf hidentity
    | some field =>
      simp only [hidentity] at h
      cases hshared : checkShared [] m.fields with
      | error fault =>
        rw [hshared] at h
        obtain rfl := Except.error.inj h
        obtain ⟨first, second, storage, before, after, rfl, hfields, hfirst⟩ := checkShared_error hshared
        exact ⟨before, after, hfields, hfirst.resolve_left List.not_mem_nil⟩
      | ok _ =>
        rw [hshared, Outcome.ok_bind] at h
        cases hnested : checkNested m.logicalFields (Dictionary.values m.fields) with
        | error fault =>
          rw [hnested] at h
          obtain rfl := Except.error.inj h
          obtain ⟨storage, hstorage, outer, owner, rfl, houter⟩ := checkNested_error hnested
          obtain ⟨hmem, hinside⟩ := inside_of_outerField? houter
          obtain ⟨f, hf, rfl⟩ := List.mem_map.mp hstorage
          exact ⟨⟨f.1, hf⟩, mem_logicalFields.mp hmem, hinside⟩
        | ok _ =>
          rw [hnested, Outcome.ok_bind] at h
          split at h
          · next helsewhere =>
            obtain ⟨hgenerates, hne⟩ := (Bool.and_eq_true _ _).mp helsewhere
            obtain rfl := Except.error.inj h
            have hfield : m.identityField = .ok field := by rw [identityField, hidentity]
            exact ⟨rfl, hgenerates, hfield, by simpa using hne⟩
          · exact nomatch h

theorem outcome_validated (m : Mapping) :
    (MappingArgument.mapping m).validated.outcome = m.validate.map fun _ => m := by
  cases h : m.validate <;> simp [MappingArgument.validated, validated, h, Except.map, Reported.outcome_map]

/-- A mapping is accepted if and only if it is sound. Any other is refused as a faulty configuration, and what it is
refused for is true of it. -/
theorem validated_ok_iff (m : Mapping) :
    ((MappingArgument.mapping m).validated.outcome = .ok m ↔ m.IsSound) ∧
      ((∃ e, (MappingArgument.mapping m).validated.outcome = .error e ∧ e.kind? = some .configuration ∧
        m.HasFault e) ↔ ¬m.IsSound) := by
  rw [outcome_validated]
  cases h : m.validate with
  | ok _ =>
    have hsound := isSound_of_validate h
    exact ⟨iff_of_true rfl hsound, iff_of_false (fun ⟨_, he, _⟩ => nomatch he) (not_not_intro hsound)⟩
  | error e =>
    have hfault := hasFault_of_validate h
    have hunsound := hfault.not_isSound
    exact ⟨iff_of_false (fun hok => nomatch hok) hunsound, iff_of_true ⟨e, rfl, hfault.kind?, hfault⟩ hunsound⟩

end Mapping

namespace Mapping

/-- A consistent mapping, the identity of which is stored under a given name. -/
structure IsConsistent (m : Mapping) (identityField : String) : Prop where
  identity : Dictionary.get? m.identity m.fields = some identityField
  distinct : m.fields.Pairwise fun f g => f.2 ≠ g.2
  apart : ∀ f ∈ m.fields, ∀ g ∈ m.fields, f.2 ≠ g.2 → Path.Apart f.2 g.2
  native : m.generatesIds = true → identityField = nativeField

theorem IsSound.apart {m : Mapping} (h : m.IsSound) {f g : String × String} (hf : f ∈ m.fields) (hg : g ∈ m.fields)
    (hne : f.2 ≠ g.2) : ¬Path.ofText f.2 <+: Path.ofText g.2 := by
  intro hbegins
  obtain ⟨rest, hinside⟩ := Path.exists_of_prefix hbegins hne
  exact h.separate f hf g hg rest hinside

theorem isConsistent_of_validate {m : Mapping} (h : m.validate = .ok ()) :
    ∃ field, m.IsConsistent field := by
  have hsound := isSound_of_validate h
  obtain ⟨field, hidentity⟩ : ∃ field, Dictionary.get? m.identity m.fields = some field := by
    obtain ⟨f, hf, hkey⟩ := List.mem_map.mp hsound.identified
    rw [← hkey]
    exact Option.ne_none_iff_exists'.mp (Dictionary.get?_ne_none hf)
  refine ⟨field, hidentity, hsound.distinct, ?_, ?_⟩
  · exact fun f hf g hg hne => ⟨hsound.apart hf hg hne, hsound.apart hg hf hne.symm⟩
  · intro hgenerates
    have hnative := hsound.native hgenerates
    rw [identityField, hidentity] at hnative
    exact Except.ok.inj hnative

end Mapping

end EntityStore

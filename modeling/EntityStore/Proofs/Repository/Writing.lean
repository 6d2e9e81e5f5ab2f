import EntityStore.Proofs.Engine.Run
import EntityStore.Proofs.Repository.EngineWrites
import EntityStore.Proofs.Repository.Finding
import EntityStore.Proofs.Repository.Refetching
import EntityStore.Proofs.Repository.StoredDocument

namespace EntityStore

open Program

/-- A repository that is given no strategies and makes no entities, of a mapping with given identities. -/
structure Repository.IsPlain {α : Type} (r : Repository α) (field : String) : Prop extends
    r.mapping.KeepsNative field where
  hydrate : r.hydrate = none
  strategies : r.strategies = .standard

namespace KeyedEntity

variable {m : Mapping}

def plan (field : String) (e : KeyedEntity m) : Repository.PlannedWrite :=
  .upsert field e.identity (Document.named (m.entries e.flat)) (e.update field)

end KeyedEntity

namespace Repository

variable {α : Type} {r : Repository α} {field : String} (habits : EngineHabits) {c : Collection}
  {s : EntityMap} (h : r.IsPlain field)
include h

theorem storedDocument_eq (e : KeyedEntity r.mapping) :
    r.storedDocument e.value = .ok (Document.named (r.mapping.entries e.flat)) := by
  rw [storedDocument_of_flatten h.strategies e.flattens]
  simp [Mapping.withNativeIdentity, h.given]

theorem updateOf_eq (e : KeyedEntity r.mapping) :
    r.updateOf (Document.named (r.mapping.entries e.flat)) = .ok (e.update field) := by
  rw [updateOf_ok h.identityField_eq, Mapping.updatable_named]
  rfl

theorem identityQuery_eq {v : Value} {k : IdentityKey} (hv : v.id = .ok k.value) :
    identityQuery r.mapping v = .ok (.field field (.literally k.value)) := by
  rw [identityQuery, hv, Outcome.ok_bind, MappingArgument.identityField, h.identityField_eq,
    Outcome.ok_bind, k.ofValue?_value]
  rfl

variable (hs : r.mapping.Keeps field c.documents s)
include hs

theorem updateRecord_keeps (e : KeyedEntity r.mapping) {old : Document} (hold : s e.key = some old) :
    Leaves (Collection.engine habits) (r.updateRecord e.value (.field field (.literally e.key.value))
      (Document.named (r.mapping.entries e.flat))) c
      fun after => r.mapping.Keeps field after.documents (e.store s) := by
  have hself := (IdentityKey.value_beq_value e.key e.key).mpr rfl
  obtain ⟨d, after, hafter, hkeeps⟩ :=
    Collection.updateFirst_present h.toKeepsNative hs hself hold e.flat
  have hanswer : (Collection.engine habits).answer (.findOneAndUpdate
      (Query.field field (.literally e.key.value)).document (.plain (e.update field))) c =
      (.ok (some (.plain d)), after) := by
    simp only [Collection.engine, Collection.answer, Query.document, Condition.document,
      KeyedEntity.update, hafter]
  refine Leaves.bind_ofExcept (updateOf_eq h e) ?_
  refine Leaves.bind_request hanswer ?_
  refine Leaves.bind (Leaves.ofExcept e.value.display hkeeps) fun shown after hkeeps => ?_
  exact Leaves.bind (Leaves.record _ _ hkeeps) fun _ after hkeeps => Leaves.done _ hkeeps

theorem insertRecord_keeps (e : KeyedEntity r.mapping) (hnone : s e.key = none) :
    Leaves (Collection.engine habits)
      (r.insertRecord e.value (Document.named (r.mapping.entries e.flat))) c
      fun after => r.mapping.Keeps field after.documents (e.store s) := by
  obtain ⟨d, hd, hstores, _⟩ := h.stores_expanded e.flattens e.holds
  have hkeeps := Collection.keeps_insert habits h.toKeepsNative hs hnone hstores
  refine Leaves.bind_ofExcept hd ?_
  refine Leaves.bind_request rfl ?_
  refine Leaves.bind_request rfl ?_
  refine Leaves.bind (Leaves.ofExcept e.value.display hkeeps) fun shown after hkeeps => ?_
  refine Leaves.bind (Leaves.ofExcept _ hkeeps) fun shownId after hkeeps => ?_
  exact Leaves.bind (Leaves.record _ _ hkeeps) fun _ after hkeeps => Leaves.done _ hkeeps

omit h in
theorem findOne_isSome (k : IdentityKey) (projection : Option Value) :
    ∃ found, (Collection.engine habits).answer
      (.findOne (Query.field field (.literally k.value)).document projection) c = (.ok found, c) ∧
      found.isSome = (s k).isSome := by
  have hself := (IdentityKey.value_beq_value k k).mpr rfl
  refine ⟨_, rfl, ?_⟩
  rw [Option.isSome_map, Query.document, Condition.document, Mapping.isSelected_eq_hasIdentity hself]
  cases hk : s k with
  | none => rw [hs.find?_none hk]
  | some flat =>
    obtain ⟨d, hd, _⟩ := hs.find?_some hk
    rw [hd]
    rfl

theorem addRecord_keeps (e : KeyedEntity r.mapping) :
    Leaves (Collection.engine habits) (r.addRecord e.value) c
      fun after => r.mapping.Keeps field after.documents (e.store s) := by
  refine Leaves.bind_ofExcept (requireIdentity_of_id e.tells) ?_
  refine Leaves.bind_ofExcept (storedDocument_eq h e) ?_
  refine Leaves.bind_ofExcept (identityQuery_eq h e.tells) ?_
  refine Leaves.during _ ?_
  refine Leaves.bind_opened ?_
  refine Leaves.bind_ofExcept e.tells ?_
  obtain ⟨found, hfound, hsome⟩ := findOne_isSome habits hs e.key (some nativeFieldOnly)
  simp only [e.key.isNewIdentity_value]
  refine Leaves.bind_request hfound ?_
  rw [hsome]
  cases hold : s e.key with
  | none => exact insertRecord_keeps habits h hs e hold
  | some old => exact updateRecord_keeps habits h hs e hold

theorem add_keeps (e : KeyedEntity r.mapping) :
    Leaves (Collection.engine habits) (r.add e.value) c
      fun after => r.mapping.Keeps field after.documents (e.store s) := by
  exact Leaves.bind (addRecord_keeps habits h hs e) fun stored after hkeeps => Leaves.ofExcept _ hkeeps

omit hs in
theorem plan_ends (e : KeyedEntity r.mapping) (c : Collection) :
    Ends (Collection.engine habits) (r.plan field e.value) c (.ok (e.plan field)) c := by
  refine Ends.bind_ofExcept (storedDocument_eq h e) ?_
  refine Ends.bind_ofExcept e.tells ?_
  simp only [e.key.isNewIdentity_value, h.get?_entries]
  refine Ends.bind_ofExcept (updateOf_eq h e) ?_
  exact Ends.done _ c

omit hs in
theorem planAll_ends (es : List (KeyedEntity r.mapping)) (c : Collection) :
    Ends (Collection.engine habits) (r.planAll field (es.map (·.value))) c
      (.ok (es.map fun e => e.plan field)) c := by
  induction es with
  | nil => exact Ends.done _ c
  | cons e es ih => exact Ends.bind (plan_ends habits h e c) (Ends.bind ih (Ends.done _ c))

theorem writeAll_keeps {es : List (KeyedEntity r.mapping)} (hne : es ≠ []) :
    Leaves (Collection.engine habits) (r.writeAll (es.map fun e => e.plan field)) c
      fun after => r.mapping.Keeps field after.documents (es.foldl KeyedEntity.store s) := by
  obtain ⟨t, after, hwrite, hkeeps, hpos⟩ :=
    Collection.writeAll_upserts habits h.toKeepsNative hs es
  have hbulk : (es.map fun e => e.plan field).map (·.bulkWrite) = es.map fun e => e.upsert field := by
    rw [List.map_map]
    rfl
  have hanswer : (Collection.engine habits).answer
      (.bulkWrite ((es.map fun e => e.plan field).map (·.bulkWrite)) false) c = (.ok t.counts, after) := by
    simp only [Collection.engine, Collection.answer, hbulk, hwrite]
    rfl
  have hfound : (t.counts.matched == .int 0 && t.counts.upserted == .int 0) = false := by
    have := hpos hne
    simp only [Tally.counts, Value.int_beq_int, Bool.and_eq_false_iff, beq_eq_false_iff_ne]
    omega
  refine Leaves.during _ ?_
  refine Leaves.bind_opened ?_
  refine Leaves.bind_request hanswer ?_
  refine Leaves.bind (Leaves.ofExcept _ hkeeps) fun inserted after hkeeps => ?_
  refine Leaves.bind (Leaves.ofExcept _ hkeeps) fun matched after hkeeps => ?_
  refine Leaves.bind (Leaves.ofExcept _ hkeeps) fun upserted after hkeeps => ?_
  refine Leaves.bind (Leaves.record _ _ hkeeps) fun _ after hkeeps => ?_
  simp only [Bool.and_assoc, hfound, Bool.and_false]
  exact Leaves.done _ hkeeps

omit h hs in
theorem knownIds_plan (es : List (KeyedEntity r.mapping)) :
    (es.map fun e => e.plan field).filterMap (·.knownId?) = es.map (·.identity) := by
  have hidentity : (fun p : PlannedWrite => p.knownId?) ∘ (fun e : KeyedEntity r.mapping => e.plan field) =
      some ∘ fun e => e.identity := rfl
  rw [List.filterMap_map, hidentity, List.filterMap_eq_map]

omit hs in
/-- The search for what was written changes nothing, whether it can be made or not. -/
theorem refetch_keeps (es : List (KeyedEntity r.mapping)) (hkeeps : r.mapping.Keeps field c.documents s) :
    Leaves (Collection.engine habits) (do
      let filter ← ofReported (r.writtenFilter (es.map fun e => e.plan field))
      r.findBy (.filter filter) none none) c fun after => r.mapping.Keeps field after.documents s := by
  have hmaps : r.mapping.maps r.mapping.identity = true := by
    simp [Mapping.maps, Dictionary.contains, h.identity]
  have hatoms : ∀ v ∈ (es.map fun e => e.plan field).filterMap (·.knownId?), v.isAtom = true := by
    intro v hv
    rw [knownIds_plan] at hv
    obtain ⟨e, _, rfl⟩ := List.mem_map.mp hv
    exact IdentityKey.isAtom_of_beq e.holds
  have hfilter : Ends (Collection.engine habits) (ofReported (r.writtenFilter (es.map fun e => e.plan field))) c _ c :=
    Ends.ofReported _ c
  rcases writtenFilter_cases (r := r) (es.map fun e => e.plan field) with ⟨htold, houtcome⟩ | houtcome | houtcome
  · rw [houtcome] at hfilter
    have hfound := findBy_finds habits h.hydrate h.strategies (refetch_outcome hatoms htold hmaps) c
    refine Leaves.bind_ends hfilter (hfound.leaves fun found after hafter => ?_)
    rw [hafter.1]
    exact hkeeps
  · rw [houtcome] at hfilter
    exact ⟨_, c, hfilter.bind_error, hkeeps⟩
  · rw [houtcome] at hfilter
    exact ⟨_, c, hfilter.bind_error, hkeeps⟩

theorem addAll_keeps (es : List (KeyedEntity r.mapping)) :
    Leaves (Collection.engine habits) (r.addAll (.list (es.map (·.value)))) c
      fun after => r.mapping.Keeps field after.documents (es.foldl KeyedEntity.store s) := by
  by_cases hne : es = []
  · subst hne
    exact Leaves.done _ hs
  · have hidentities : (es.map (·.value)).forM requireIdentity = .ok () := by
      apply Outcome.forM_ok
      intro v hv
      obtain ⟨e, _, rfl⟩ := List.mem_map.mp hv
      exact requireIdentity_of_id e.tells
    have hitems : (es.map (·.value)).isEmpty = false := by simpa using hne
    refine Leaves.bind_ofExcept rfl ?_
    refine Leaves.bind_ofExcept hidentities ?_
    simp only [hitems]
    refine Leaves.bind_ofExcept h.identityField_eq ?_
    refine Leaves.bind_ends (planAll_ends habits h es c) ?_
    exact Leaves.bind (writeAll_keeps habits h hs hne) fun _ after hkeeps => refetch_keeps habits h es hkeeps

theorem remove_keeps {v : Value} {k : IdentityKey} (hv : v.id = .ok k.value) :
    Leaves (Collection.engine habits) (r.remove v) c
      fun after => r.mapping.Keeps field after.documents (Function.update s k none) := by
  have hself := (IdentityKey.value_beq_value k k).mpr rfl
  have hkeeps := hs.eraseP k
  rw [← Mapping.isSelected_eq_hasIdentity hself] at hkeeps
  refine Leaves.bind_ofExcept (requireIdentity_of_id hv) ?_
  refine Leaves.bind_ofExcept (identityQuery_eq h hv) ?_
  refine Leaves.bind_ends ((Ends.bind (Ends.opened _ _ c) (Ends.request rfl)).during _) ?_
  refine Leaves.bind (Leaves.ofExcept _ hkeeps) fun count after hkeeps => ?_
  refine Leaves.bind (Leaves.ofExcept _ hkeeps) fun shown after hkeeps => ?_
  exact Leaves.record _ _ hkeeps

omit h hs in
theorem removeAll_keeps (field : String) : Leaves (Collection.engine habits) (r.removeAll .absent) c
    fun after => r.mapping.Keeps field after.documents fun _ => none := by
  refine Leaves.bind_ends ((Ends.bind (Ends.opened _ _ c) (Ends.request rfl)).during _) ?_
  exact Leaves.record _ _ (Mapping.keeps_nil _ field)

end Repository

end EntityStore

import EntityStore.Proofs.Document.Ready
import EntityStore.Proofs.Engine.Asking
import EntityStore.Proofs.Query.Ready
import EntityStore.Proofs.Repository.Planning
import EntityStore.Proofs.Repository.Serving

namespace EntityStore

open Document Program

namespace BulkWrite

/-- The values that are sent with a write. -/
def parts : BulkWrite → List Value
  | .insert document => [.plain document]
  | .upsert query update => [.plain query, .plain update]

end BulkWrite

namespace Request

/-- The values that are sent with a request: queries, projections, sort keys, updates and documents. -/
def parts : Request → List Value
  | .findOne query projection => query :: projection.toList
  | .find query projection => [query, projection]
  | .sort keys => [keys]
  | .skip _ | .limit _ | .fetch | .drop => []
  | .count query => [query]
  | .distinct _ query => [query]
  | .findOneAndUpdate query update => [query, update]
  | .insertOne document => [.plain document]
  | .insertMany documents => documents.map .plain
  | .bulkWrite writes _ => writes.flatMap (·.parts)
  | .deleteOne query | .deleteMany query => [query]

/-- Whether all that is sent with a request is stored as it is. -/
def IsReady (q : Request) : Prop := ∀ part ∈ q.parts, part.isReady = true

end Request

namespace Repository

variable {α : Type} {r : Repository α} {field : String}

theorem isReady_sortKeys {m : Mapping} {sort : Option SortOrder} {keys : Value}
    (h : (Strategies.standard.sortKeys sort m).outcome = .ok keys) : keys.isReady = true := by
  obtain ⟨keys, rfl⟩ := sortKeys_value m h
  refine (Value.isReady_list _).mpr fun v hv => ?_
  obtain ⟨key, _, rfl⟩ := List.mem_map.mp hv
  rfl

theorem isReady_projectionOf {m : Mapping} {fields : Option Selection} {document : Document}
    (h : (projectionOf fields m).outcome = .ok (some document)) : document.IsReady := by
  cases fields with
  | none => cases h
  | some s =>
    cases hempty : s.isEmpty with
    | true =>
      rw [projectionOf, hempty] at h
      cases h
    | false =>
      rw [Selection.outcome_projectionOf hempty] at h
      obtain ⟨d, hd, h⟩ := Outcome.bind_eq_ok.mp h
      obtain ⟨names, _, hd⟩ := Outcome.bind_eq_ok.mp hd
      obtain rfl : d = document := by simpa using h
      obtain rfl := Except.ok.inj hd
      refine IsReady.nil.insertMany fun f hf => ?_
      obtain ⟨name, _, rfl⟩ := List.mem_map.mp hf
      rfl

theorem isReady_projection {m : Mapping} {fields : Option Selection} {projection : Value}
    (h : (Strategies.standard.projection fields m).outcome = .ok projection) : projection.isReady = true := by
  obtain ⟨document, hdocument, h⟩ := Outcome.bind_eq_ok.mp ((Reported.outcome_bind _ _).symm.trans h)
  obtain rfl := Except.ok.inj h
  cases document with
  | none => rfl
  | some document => exact (Value.isReady_plain document).mpr (isReady_projectionOf hdocument)

theorem isReady_writtenAs {m : Mapping} {name : String} {v w : Value} (hv : v.isReady = true)
    (h : m.writtenAs name v = some w) : w.isReady = true := by
  rw [Mapping.writtenAs] at h
  split at h
  · split at h
    · cases h
    · split at h
      · obtain rfl := Option.some.inj h
        rfl
      · exact Option.some.inj h ▸ hv
  · exact Option.some.inj h ▸ hv

theorem isReady_storedDocument (h : r.mapping.IsConsistent field) (hstrategies : r.strategies = .standard)
    {entity : Value} {document : Document} (hdocument : r.storedDocument entity = .ok document) :
    document.IsReady := by
  obtain ⟨flat, hflat, _⟩ := exists_flatten_of_storedDocument hstrategies hdocument
  obtain rfl := Except.ok.inj ((storedDocument_eq_written h hstrategies hflat).symm.trans hdocument)
  have hvalue (name : String) : (flat.valueOf name).isReady = true := by
    rw [valueOf]
    cases hv : Dictionary.get? (.text name) flat with
    | none => rfl
    | some v => exact (isReady_flatten hflat).get? hv
  intro f hf
  obtain ⟨e, he, rfl⟩ := List.mem_map.mp hf
  obtain ⟨g, _, _, hwritten⟩ := Mapping.mem_writtenEntries.mp he
  exact isReady_writtenAs (hvalue g.1) hwritten

theorem isReady_settingFields {fields : Document} (h : fields.IsReady) : (settingFields fields).IsReady :=
  List.forall_mem_singleton.mpr ((Value.isReady_plain fields).mpr h)

theorem isReady_updatable {document : Document} (h : document.IsReady) (field : String) :
    (Mapping.updatable field document).IsReady := fun f hf => h f (List.mem_filter.mp hf).1

theorem isReady_updateOf {document update : Document} (h : document.IsReady)
    (hupdate : r.updateOf document = .ok update) : update.IsReady := by
  obtain ⟨field, _, hupdate⟩ := Outcome.bind_eq_ok.mp hupdate
  exact Except.ok.inj hupdate ▸ isReady_settingFields (isReady_updatable h field)

theorem asksReady_openCursor {query projection keys : Value} (hquery : query.isReady = true)
    (hprojection : projection.isReady = true) (hkeys : keys.isReady = true) :
    (openCursor query projection keys).Asks Request.IsReady := by
  refine Asks.bind_request ?_ fun _ => ?_
  · exact List.forall_mem_cons.mpr ⟨hquery, List.forall_mem_singleton.mpr hprojection⟩
  · split
    · exact Asks.request (List.forall_mem_singleton.mpr hkeys)
    · exact trivial

section

variable (hstrategies : r.strategies = .standard)
include hstrategies

theorem asksReady_findBy (filter : FilterArgument) (sort : Option SortOrder) (fields : Option Selection) :
    (r.findBy filter sort fields).Asks Request.IsReady := by
  rw [findBy, findRecords, hstrategies]
  refine Asks.bind ?_ fun _ => Asks.ofExcept _
  refine Asks.bind_ofReported fun query hquery => Asks.bind_ofReported fun keys hkeys => ?_
  refine Asks.bind_ofReported fun projection hprojection => ?_
  have hcursor := asksReady_openCursor (isReady_filterQuery r.mapping hquery) (isReady_projection hprojection)
    (isReady_sortKeys hkeys)
  refine Asks.bind (Asks.during _ (Asks.bind_opened ?_)) fun records => ?_
  · exact Asks.bind hcursor fun _ => Asks.request (List.forall_mem_nil _)
  · exact Asks.bind_ofExcept fun _ _ => trivial

theorem asksReady_findByDistinct (fields : Option Selection) (filter : FilterArgument) (sort : Option SortOrder) :
    (r.findByDistinct fields filter sort).Asks Request.IsReady := by
  rw [findByDistinct, distinctValues, hstrategies]
  refine Asks.bind ?_ fun _ => Asks.ofExcept _
  refine Asks.bind_ofExcept fun field _ => Asks.bind_ofReported fun query hquery => ?_
  refine Asks.bind_ofReported fun keys _ => ?_
  refine Asks.bind (Asks.during _ (Asks.bind_opened (Asks.request ?_))) fun values => ?_
  · exact List.forall_mem_singleton.mpr (isReady_filterQuery r.mapping hquery)
  · exact Asks.bind_ofExcept fun _ _ => trivial

theorem asksReady_findPage (p : PageRequest) : (r.findPage p).Asks Request.IsReady := by
  rw [findPage, pageRecords, hstrategies]
  refine Asks.bind ?_ fun _ => Asks.bind_ofExcept fun _ _ => Asks.ofExcept _
  refine Asks.bind_ofReported fun query hquery => Asks.bind_ofReported fun keys hkeys => ?_
  refine Asks.bind_ofReported fun projection hprojection => ?_
  have hq := isReady_filterQuery r.mapping hquery
  have hcursor := asksReady_openCursor hq (isReady_projection hprojection) (isReady_sortKeys hkeys)
  refine Asks.bind_ofExcept fun _ _ => Asks.bind_ofExcept fun _ _ => Asks.bind_ofExcept fun _ _ => ?_
  refine Asks.bind_record (Asks.during _ (Asks.bind_opened ?_))
  refine Asks.bind_request (List.forall_mem_singleton.mpr hq) fun _ => Asks.bind hcursor fun _ => ?_
  refine Asks.bind_request (List.forall_mem_nil _) fun _ => ?_
  refine Asks.bind_request (List.forall_mem_nil _) fun _ => ?_
  exact Asks.bind_request (List.forall_mem_nil _) fun _ => trivial

theorem asksReady_findAll (request : Option PageRequest) : (r.findAll request).Asks Request.IsReady := by
  cases request with
  | none => exact Asks.bind (asksReady_findBy hstrategies _ _ _) fun _ => trivial
  | some p =>
    by_cases hdistinct : Selection.namesOf p.distinct = []
    · rw [findAll_of_nil hdistinct]
      exact asksReady_findPage hstrategies p
    · rw [findAll_of_ne_nil hdistinct]
      exact Asks.bind (asksReady_findByDistinct hstrategies _ _ _) fun _ => Asks.ofExcept _

theorem asksReady_count (filter : FilterArgument) : (r.count filter).Asks Request.IsReady := by
  rw [count, hstrategies]
  refine Asks.bind_ofReported fun query hquery => Asks.bind_ofExcept fun _ _ => Asks.bind_record ?_
  refine Asks.bind (Asks.during _ (Asks.bind_opened (Asks.request ?_))) fun n => ?_
  · exact List.forall_mem_singleton.mpr (isReady_filterQuery r.mapping hquery)
  · exact Asks.bind_ofExcept fun _ _ => Asks.bind_record (Asks.ofExcept _)

theorem asksReady_removeAll (filter : FilterArgument) : (r.removeAll filter).Asks Request.IsReady := by
  have hselected : (do
      let query ← ofReported (r.strategies.filterQuery filter r.mapping)
      let n ← during (.ok "removing entities") do
        r.opened
        request (.deleteMany query)
      let count ← ofExcept n.display
      record .info s!"Deleted {count} document(s) from '{r.mapping.collection}'.").Asks Request.IsReady := by
    rw [hstrategies]
    refine Asks.bind_ofReported fun query hquery => ?_
    refine Asks.bind (Asks.during _ (Asks.bind_opened (Asks.request ?_))) fun n => ?_
    · exact List.forall_mem_singleton.mpr (isReady_filterQuery r.mapping hquery)
    · exact Asks.bind_ofExcept fun _ _ => Asks.record _ _
  cases filter with
  | absent =>
    refine Asks.bind (Asks.during _ (Asks.bind_opened (Asks.request ?_))) fun _ => Asks.record _ _
    exact List.forall_mem_nil _
  | filter f => exact hselected
  | other v => exact hselected

end

/-- Whether all that is sent for a planned write is stored as it is, also if its document is inserted after all. -/
structure PlannedWrite.IsReady (p : PlannedWrite) : Prop where
  bulkWrite : ∀ part ∈ p.bulkWrite.parts, part.isReady = true
  knownDocument : ∀ d, p.knownDocument? = some d → d.IsReady

section

variable (h : r.mapping.IsConsistent field) (hstrategies : r.strategies = .standard)
include h hstrategies

theorem yields_plan (name : String) (entity : Value) : (r.plan name entity).Yields PlannedWrite.IsReady := by
  refine Yields.bind_ofExcept fun document hdocument => Yields.bind_ofExcept fun id _ => ?_
  have hready := isReady_storedDocument h hstrategies hdocument
  split
  · intro fresh
    refine Yields.bind_ofExcept fun expanded hexpanded => ⟨?_, fun d hd => nomatch hd⟩
    refine List.forall_mem_singleton.mpr ((Value.isReady_plain expanded).mpr ?_)
    exact isReady_expandFields (hready.insert rfl _) hexpanded
  · split
    · exact trivial
    · next stored hstored =>
      refine Yields.bind_ofExcept fun update hupdate => ⟨?_, fun d hd => Option.some.inj hd ▸ hready⟩
      refine List.forall_mem_cons.mpr ⟨?_, List.forall_mem_singleton.mpr ?_⟩
      · exact (Value.isReady_single name stored).trans (hready.get? hstored)
      · exact (Value.isReady_plain update).mpr (isReady_updateOf hready hupdate)

theorem yields_planAll (name : String) (entities : List Value) :
    (r.planAll name entities).Yields fun plans => ∀ p ∈ plans, p.IsReady := by
  induction entities with
  | nil => exact List.forall_mem_nil _
  | cons entity rest ih =>
    refine Yields.bind (yields_plan h hstrategies name entity) fun first hfirst => ?_
    exact Yields.bind ih fun others hothers => List.forall_mem_cons.mpr ⟨hfirst, hothers⟩

omit h hstrategies in
theorem asksReady_writeAll {plans : List PlannedWrite} (hplans : ∀ p ∈ plans, p.IsReady) :
    (r.writeAll plans).Asks Request.IsReady := by
  refine Asks.during _ (Asks.bind_opened (Asks.bind_request ?_ fun counts => ?_))
  · intro part hpart
    obtain ⟨write, hwrite, hpart⟩ := List.mem_flatMap.mp hpart
    obtain ⟨p, hp, rfl⟩ := List.mem_map.mp hwrite
    exact (hplans p hp).bulkWrite part hpart
  · refine Asks.bind_ofExcept fun _ _ => Asks.bind_ofExcept fun _ _ => Asks.bind_ofExcept fun _ _ => ?_
    refine Asks.bind_record ?_
    simp only
    split
    · refine Asks.bind_record (Asks.bind_ofExcept fun expanded hexpanded => Asks.request ?_)
      refine List.forall_mem_map.mpr (Outcome.mapM_forall hexpanded fun document d hdocument hd => ?_)
      obtain ⟨p, hp, hknown⟩ := List.mem_filterMap.mp hdocument
      exact (Value.isReady_plain d).mpr (isReady_expandFields ((hplans p hp).knownDocument _ hknown) hd)
    · exact trivial

theorem asksReady_addAll (entities : Value) : (r.addAll entities).Asks Request.IsReady := by
  refine Asks.bind_ofExcept fun items _ => Asks.bind_ofExcept fun _ _ => ?_
  split
  · exact trivial
  · refine Asks.bind_ofExcept fun name _ => ?_
    refine Asks.bind_yields (asks_planAll name items) (yields_planAll h hstrategies name items) fun plans hplans => ?_
    refine Asks.bind (asksReady_writeAll hplans) fun _ => Asks.bind_ofReported fun f _ => ?_
    exact asksReady_findBy hstrategies _ _ _

end

end Repository

end EntityStore

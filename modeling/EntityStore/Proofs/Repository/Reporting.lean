import EntityStore.Engine.Scripted
import EntityStore.Proofs.Engine.Reporting
import EntityStore.Proofs.Repository.NativeIdentity
import EntityStore.Proofs.Repository.Operation

namespace EntityStore

open Program Reported

structure Strategies.AreQuiet (s : Strategies) : Prop where
  filterQuery : ∀ filter m, (s.filterQuery filter m).IsQuiet
  sortKeys : ∀ sort m, (s.sortKeys sort m).IsQuiet
  projection : ∀ fields m, (s.projection fields m).IsQuiet

theorem isQuiet_queryOf (filter : FilterArgument) (m : MappingArgument) : (queryOf filter m).IsQuiet := by
  cases filter with
  | absent => exact IsQuiet.ofExcept _
  | other v => exact IsQuiet.ofExcept _
  | filter f =>
    refine (IsQuiet.ofExcept _).bind fun query => (IsQuiet.ofExcept _).bind fun shown => ?_
    refine (IsQuiet.ofExcept _).bind fun compiled => ?_
    exact (IsQuiet.note (by decide) _).bind fun _ => IsQuiet.ofExcept _

theorem isQuiet_sortKeysOf (sort : Option SortOrder) (m : MappingArgument) : (sortKeysOf sort m).IsQuiet := by
  cases sort with
  | none => exact IsQuiet.ofExcept _
  | some s =>
    rw [sortKeysOf]
    split
    · exact IsQuiet.ofExcept _
    · refine (IsQuiet.ofExcept _).bind fun keys => (IsQuiet.ofExcept _).bind fun shown => ?_
      refine (IsQuiet.ofExcept _).bind fun compiled => ?_
      exact (IsQuiet.note (by decide) _).bind fun _ => IsQuiet.ofExcept _

theorem isQuiet_projectionOf (fields : Option Selection) (m : MappingArgument) :
    (projectionOf fields m).IsQuiet := by
  cases fields with
  | none => exact IsQuiet.ofExcept _
  | some s =>
    rw [projectionOf]
    split
    · exact IsQuiet.ofExcept _
    · refine (IsQuiet.ofExcept _).bind fun document => (IsQuiet.ofExcept _).bind fun shown => ?_
      refine (IsQuiet.ofExcept _).bind fun compiled => ?_
      exact (IsQuiet.note (by decide) _).bind fun _ => IsQuiet.ofExcept _

theorem Strategies.areQuiet_standard : Strategies.standard.AreQuiet where
  filterQuery := fun filter m => isQuiet_queryOf filter m
  sortKeys := fun sort m => (isQuiet_sortKeysOf sort m).bind fun _ => IsQuiet.ofExcept _
  projection := fun fields m => (isQuiet_projectionOf fields m).bind fun _ => IsQuiet.ofExcept _

theorem Filter.isQuiet_addValues (f : Filter) (group : ClauseGroup) (kind : TestKind) (field first second : Value) :
    (f.addValues group kind field first second).IsQuiet := by
  have hlevel : LogLevel.debug ≠ .error := by decide
  refine (IsQuiet.ofExcept _).bind fun p => ?_
  exact (IsQuiet.note hlevel p.addition.message).bind fun _ => IsQuiet.ofExcept _

namespace Repository

variable {α : Type} {r : Repository α}

theorem isQuiet_orAmong (field : String) (ids : List Value) (f : Filter) : (orAmong field ids f).IsQuiet := by
  rw [orAmong]
  split
  · exact IsQuiet.ofExcept _
  · exact f.isQuiet_addValues _ _ _ _ _

theorem isQuiet_writtenFilter (plans : List PlannedWrite) : (r.writtenFilter plans).IsQuiet :=
  (isQuiet_orAmong _ _ _).bind fun f => isQuiet_orAmong _ _ f

theorem handles_openCursor {fails : Prop} (query projection keys : Value) :
    Handles Ending.IsUnchanged fails (fun _ => True) (openCursor query projection keys) := by
  refine Handles.bind_request fun _ _ => ?_
  split
  · exact Handles.request fun _ _ => trivial
  · exact trivial

section

variable (h : r.strategies.AreQuiet)
include h

theorem reporting_findRecord (id : Value) (fields : Option Selection) :
    IsReporting none (r.findRecord id fields) := by
  refine IsReporting.bind_ofExcept fun _ _ => ?_
  refine IsReporting.bind_ofExcept fun query _ => ?_
  refine IsReporting.bind_ofReported (h.projection _ _) fun projection => ?_
  refine IsReporting.bind_ofExcept fun shown _ => ?_
  refine IsReporting.bind_ofExcept fun sought _ => ?_
  refine Handles.bind_record (by decide) ?_
  refine IsReporting.bind (Handles.during _ ?_) fun found => ?_
  · exact Handles.bind_opened (Handles.request fun _ _ => trivial)
  · split
    · exact Handles.bind_record (by decide) trivial
    · exact trivial

theorem reporting_findRecords (filter : FilterArgument) (sort : Option SortOrder) (fields : Option Selection) :
    IsReporting none (r.findRecords filter sort fields) := by
  refine IsReporting.bind_ofReported (h.filterQuery _ _) fun query => ?_
  refine IsReporting.bind_ofReported (h.sortKeys _ _) fun keys => ?_
  refine IsReporting.bind_ofReported (h.projection _ _) fun projection => ?_
  refine IsReporting.bind (Handles.during _ ?_) fun records => ?_
  · exact Handles.bind_opened ((handles_openCursor _ _ _).bind fun _ _ => Handles.request fun _ _ => trivial)
  · exact IsReporting.bind_ofExcept fun shown _ => Handles.bind_record (by decide) trivial

theorem reporting_findBy (filter : FilterArgument) (sort : Option SortOrder) (fields : Option Selection) :
    IsReporting none (r.findBy filter sort fields) :=
  (reporting_findRecords h filter sort fields).bind fun _ => IsReporting.ofExcept _

theorem reporting_findByDistinct (fields : Option Selection) (filter : FilterArgument) (sort : Option SortOrder) :
    IsReporting none (r.findByDistinct fields filter sort) := by
  have hvalues : IsReporting none (r.distinctValues fields filter sort) := by
    refine IsReporting.bind_ofExcept fun field _ => ?_
    refine IsReporting.bind_ofReported (h.filterQuery _ _) fun query => ?_
    refine IsReporting.bind_ofReported (h.sortKeys _ _) fun keys => ?_
    refine IsReporting.bind (Handles.during _ ?_) fun values => ?_
    · exact Handles.bind_opened (Handles.request fun _ _ => trivial)
    · exact IsReporting.bind_ofExcept fun items _ => Handles.bind_record (by decide) trivial
  exact hvalues.bind fun _ => IsReporting.ofExcept _

theorem reporting_findPage (p : PageRequest) : IsReporting none (r.findPage p) := by
  have hrecords : IsReporting none (r.pageRecords p) := by
    refine IsReporting.bind_ofReported (h.filterQuery _ _) fun query => ?_
    refine IsReporting.bind_ofReported (h.sortKeys _ _) fun keys => ?_
    refine IsReporting.bind_ofReported (h.projection _ _) fun projection => ?_
    refine IsReporting.bind_ofExcept fun shown _ => ?_
    refine IsReporting.bind_ofExcept fun skip _ => ?_
    refine IsReporting.bind_ofExcept fun limit _ => ?_
    refine Handles.bind_record (by decide) (Handles.during _ ?_)
    refine Handles.bind_opened (Handles.bind_request fun total _ => ?_)
    refine (handles_openCursor _ _ _).bind fun _ _ => ?_
    refine Handles.bind_request fun _ _ => Handles.bind_request fun _ _ => Handles.bind_request fun _ _ => ?_
    exact trivial
  exact hrecords.bind fun _ => IsReporting.bind_ofExcept fun content _ => IsReporting.ofExcept _

theorem reporting_findAll (request : Option PageRequest) : IsReporting none (r.findAll request) := by
  have hdistinct (fields : Selection) (p : PageRequest) : IsReporting none (r.findDistinctPage fields p) :=
    (reporting_findByDistinct h _ _ _).bind fun _ => IsReporting.ofExcept _
  cases request with
  | none => exact (reporting_findBy h _ _ _).bind fun _ => trivial
  | some p =>
    rw [findAll]
    split
    · exact reporting_findPage h p
    · split
      · exact reporting_findPage h p
      · exact hdistinct _ p

theorem reporting_count (filter : FilterArgument) : IsReporting none (r.count filter) := by
  refine IsReporting.bind_ofReported (h.filterQuery _ _) fun query => ?_
  refine IsReporting.bind_ofExcept fun shown _ => ?_
  refine Handles.bind_record (by decide) ?_
  refine IsReporting.bind (Handles.during _ ?_) fun n => ?_
  · exact Handles.bind_opened (Handles.request fun _ _ => trivial)
  · refine IsReporting.bind_ofExcept fun shown _ => ?_
    exact Handles.bind_record (by decide) (IsReporting.ofExcept _)

theorem reporting_removeAll (filter : FilterArgument) : IsReporting none (r.removeAll filter) := by
  have hquery : IsReporting none (do
      let query ← ofReported (r.strategies.filterQuery filter r.mapping)
      let n ← during (.ok "removing entities") do
        r.opened
        request (.deleteMany query)
      let count ← ofExcept n.display
      record .info s!"Deleted {count} document(s) from '{r.mapping.collection}'.") := by
    refine IsReporting.bind_ofReported (h.filterQuery _ _) fun query => ?_
    refine IsReporting.bind (Handles.during _ ?_) fun n => ?_
    · exact Handles.bind_opened (Handles.request fun _ _ => trivial)
    · exact IsReporting.bind_ofExcept fun count _ => Handles.record (by decide) trivial
  cases filter with
  | absent =>
    refine IsReporting.bind (Handles.during _ ?_) fun _ => Handles.record (by decide) trivial
    exact Handles.bind_opened (Handles.request fun _ _ => trivial)
  | filter f => exact hquery
  | other v => exact hquery

end

/-- Why a value cannot be shown. -/
def unshown? (v : Value) : Option Failure :=
  match v.display with
  | .ok _ => none
  | .error f => some f

theorem reporting_doing (activity : String) (v : Value) {β : Type} {body : Program β}
    (hbody : ∀ fails : Prop, (∀ f, v.display = .error f → fails) →
      Handles Ending.IsUnchanged fails (fun _ => True) body) :
    IsReporting (unshown? v) (during (doing activity v) body) := by
  rw [unshown?, doing]
  cases hv : v.display with
  | ok shown => exact Handles.during _ (hbody False fun f hf => (Outcome.ok_ne_error hv hf).elim)
  | error f => exact Handles.during_untold f (hbody True fun _ _ => trivial)

theorem reporting_contains (id : Value) : IsReporting (unshown? id) (r.contains id) := by
  refine IsReporting.bind_ofExcept fun _ _ => ?_
  refine IsReporting.bind_ofExcept fun query _ => ?_
  refine IsReporting.bind (reporting_doing _ _ fun fails _ => ?_) fun found => trivial
  exact Handles.bind_opened (Handles.request fun _ _ => trivial)

theorem reporting_remove (id : Value) : IsReporting (unshown? id) (r.remove id) := by
  refine IsReporting.bind_ofExcept fun _ _ => ?_
  refine IsReporting.bind_ofExcept fun query _ => ?_
  refine IsReporting.bind (reporting_doing _ _ fun fails _ => ?_) fun n => ?_
  · exact Handles.bind_opened (Handles.request fun _ _ => trivial)
  · refine IsReporting.bind_ofExcept fun count _ => IsReporting.bind_ofExcept fun shown _ => ?_
    exact Handles.record (by decide) trivial

section

variable {field : String} (h : r.mapping.IsConsistent field) {entity : Value} {fails : Prop}

include h in
theorem handles_updateRecord (hfails : ∀ f, entity.display = .error f → fails) (query : Query)
    (document : Document) :
    Handles Ending.IsUnchanged fails (fun _ => True) (r.updateRecord entity query document) := by
  have hupdate := updateOf_ok h.identityField_eq document
  refine Handles.bind_ofExcept (fun e he => (Outcome.ok_ne_error hupdate he).elim) fun update _ => ?_
  refine Handles.bind_request fun stored _ => ?_
  refine Handles.bind_ofExcept hfails fun shown _ => ?_
  exact Handles.bind_record (by decide) trivial

theorem handles_insertRecord (hfails : ∀ f, entity.display = .error f → fails) {document expanded : Document}
    (hexpanded : expandFields document = .ok expanded) :
    Handles Ending.IsUnchanged fails (fun _ => True) (r.insertRecord entity document) := by
  refine Handles.bind_ofExcept (fun e he => (Outcome.ok_ne_error hexpanded he).elim) fun expanded _ => ?_
  refine Handles.bind_request fun id hid => Handles.bind_request fun stored _ => ?_
  refine Handles.bind_ofExcept hfails fun shown _ => ?_
  refine Handles.bind_ofExcept (fun e he => ?_) fun shownId _ => Handles.bind_record (by decide) trivial
  rw [Request.isShown, he] at hid
  exact absurd hid Bool.false_ne_true

variable (hstrategies : r.strategies = .standard)
include h hstrategies

theorem reporting_add (entity : Value) : IsReporting (unshown? entity) (r.add entity) := by
  have hrecord : IsReporting (unshown? entity) (r.addRecord entity) := by
    refine IsReporting.bind_ofExcept fun _ _ => ?_
    refine IsReporting.bind_ofExcept fun document hdocument => ?_
    refine IsReporting.bind_ofExcept fun query hquery => ?_
    obtain ⟨id, hid, _⟩ := Outcome.bind_eq_ok.mp hquery
    obtain ⟨expanded, hexpanded⟩ := exists_expandFields h hstrategies hdocument
    refine reporting_doing _ _ fun fails hfails => ?_
    refine Handles.bind_opened (Handles.bind_ofExcept (fun e he => (Outcome.ok_ne_error hid he).elim) fun id _ => ?_)
    have hwrite (existing : Option Value) : Handles Ending.IsUnchanged fails (fun _ => True)
        (if existing.isSome then r.updateRecord entity query document else r.insertRecord entity document) := by
      split
      · exact handles_updateRecord h hfails query document
      · exact handles_insertRecord hfails hexpanded
    split
    · exact hwrite none
    · exact Handles.bind_request fun existing _ => hwrite existing
  exact hrecord.bind fun _ => IsReporting.ofExcept _

/-- Whether the documents of entities with an identity can be written with nested fields. -/
def Expands (plans : List PlannedWrite) : Prop :=
  ∀ document ∈ plans.filterMap (·.knownDocument?), ∃ expanded, expandFields document = .ok expanded

theorem handles_plan (ends : Failure → Ending → Prop) (entity : Value) :
    Handles ends True (fun plan => Expands [plan]) (r.plan field entity) := by
  refine Handles.bind_ofExcept (fun _ _ => trivial) fun document hdocument => ?_
  refine Handles.bind_ofExcept (fun _ _ => trivial) fun id _ => ?_
  split
  · intro fresh
    refine Handles.bind_ofExcept (fun _ _ => trivial) fun expanded _ => ?_
    exact List.forall_mem_nil _
  · split
    · exact trivial
    · refine Handles.bind_ofExcept (fun _ _ => trivial) fun update _ => ?_
      intro d hd
      obtain rfl := List.mem_singleton.mp hd
      exact exists_expandFields h hstrategies hdocument

theorem handles_planAll (ends : Failure → Ending → Prop) (entities : List Value) :
    Handles ends True Expands (r.planAll field entities) := by
  induction entities with
  | nil => exact List.forall_mem_nil _
  | cons entity entities ih =>
    refine (handles_plan h hstrategies ends entity).bind fun plan hplan => ih.bind fun plans hplans => ?_
    intro d hd
    rw [← List.singleton_append, List.filterMap_append] at hd
    rcases List.mem_append.mp hd with hd | hd
    · exact hplan d hd
    · exact hplans d hd

omit h hstrategies in
theorem reporting_writeAll {plans : List PlannedWrite} (hplans : Expands plans) :
    IsReporting none (r.writeAll plans) := by
  have hinsert {fails : Prop} : Handles Ending.IsUnchanged fails (fun _ => True)
      (insertKnown (plans.filterMap (·.knownDocument?))) := by
    refine Handles.bind_record (by decide) ?_
    refine Handles.bind_ofExcept (fun e he => ?_) fun expanded _ => Handles.request fun _ _ => trivial
    obtain ⟨d, hd, he⟩ := Outcome.exists_mem_of_mapM_error he
    obtain ⟨expanded, hexpanded⟩ := hplans d hd
    exact (Outcome.ok_ne_error hexpanded he).elim
  refine Handles.during _ (Handles.bind_opened (Handles.bind_request fun counts hcounts => ?_))
  simp only [Request.isShown, Bool.and_eq_true] at hcounts
  obtain ⟨⟨hinserted, hmatched⟩, hupserted⟩ := hcounts
  refine Handles.bind_ofExcept (fun e he => by simp [he, Except.isOk, Except.toBool] at hinserted) fun _ _ => ?_
  refine Handles.bind_ofExcept (fun e he => by simp [he, Except.isOk, Except.toBool] at hmatched) fun _ _ => ?_
  refine Handles.bind_ofExcept (fun e he => by simp [he, Except.isOk, Except.toBool] at hupserted) fun _ _ => ?_
  refine Handles.bind_record (by decide) ?_
  simp only
  split
  · exact hinsert
  · exact trivial

theorem reporting_addAll (entities : Value) : IsReporting none (r.addAll entities) := by
  refine IsReporting.bind_ofExcept fun items _ => IsReporting.bind_ofExcept fun _ _ => ?_
  split
  · exact trivial
  · refine IsReporting.bind_ofExcept fun name hname => ?_
    obtain rfl := Except.ok.inj (h.identityField_eq.symm.trans hname)
    refine (handles_planAll h hstrategies _ items).bind fun plans hplans => ?_
    refine IsReporting.bind (reporting_writeAll hplans) fun _ => ?_
    refine IsReporting.bind_ofReported (isQuiet_writtenFilter plans) fun filter => ?_
    exact reporting_findBy (hstrategies ▸ Strategies.areQuiet_standard) _ _ _

end

end Repository

namespace Operation

variable {σ α : Type} {r : Repository α}

/-- Why an operation cannot tell what it was doing when the engine fails. Those that do not name an entity
then can always tell. -/
def untold? : Operation → Option Failure
  | .contains v | .add v | .remove v => Repository.unshown? v
  | _ => none

theorem isReporting {field : String} (h : r.mapping.IsConsistent field) (hstrategies : r.strategies = .standard)
    (op : Operation) : IsReporting op.untold? (op.program r) := by
  have hquiet : r.strategies.AreQuiet := hstrategies ▸ Strategies.areQuiet_standard
  cases op with
  | find id fields =>
    exact (Repository.reporting_findRecord hquiet id fields).bind fun _ => IsReporting.ofExcept _
  | findBy filter sort fields => exact Repository.reporting_findBy hquiet filter sort fields
  | findByDistinct fields filter sort => exact Repository.reporting_findByDistinct hquiet fields filter sort
  | findAll request => exact Repository.reporting_findAll hquiet request
  | count filter => exact Repository.reporting_count hquiet filter
  | contains id => exact Repository.reporting_contains id
  | add entity => exact Repository.reporting_add h hstrategies entity
  | addAll entities => exact Repository.reporting_addAll h hstrategies entities
  | remove id => exact Repository.reporting_remove id
  | removeAll filter => exact Repository.reporting_removeAll hquiet filter

/-- Where the engine fails, an operation asks nothing more. It fails for the same reason and leaves one record
of the level of errors, unless the entity that the record would name cannot be shown: then it leaves none and
fails for that reason instead. Where the engine does not fail there is no such record. -/
theorem engineFailure_reported (hvalid : r.mapping.validate = .ok ()) (hstrategies : r.strategies = .standard)
    (op : Operation) (engine : Engine σ) (s : Session σ)
    (hshown : ∀ x ∈ (op.program r).conversation engine s.engine, x.isShown = true) :
    let conversation := (op.program r).conversation engine s.engine
    let t := (op.program r).run engine s
    t.requests = conversation.map (·.request) ∧
    (∀ k x e, conversation[k]? = some x → x.failure? = some e → t.requests.length = k + 1 ∧
      match op.untold? with
      | none => t.outcome = .error e ∧ ∃ activity, t.errors = [⟨.error, failureMessage activity e⟩]
      | some f => t.outcome = .error f ∧ t.errors = []) ∧
    ((∀ x ∈ conversation, x.failure? = none) → t.errors = []) := by
  obtain ⟨field, h⟩ := Mapping.isConsistent_of_validate hvalid
  obtain ⟨hfailed, hunfailed⟩ := (isReporting h hstrategies op).reports s hshown
  have hrequests : ((op.program r).run engine s).requests = _ := requests_run (op.program r) s
  refine ⟨hrequests, fun k x e hx he => ?_, hunfailed⟩
  obtain ⟨hlength, y, hy, houtcome, herrors⟩ := hfailed k x e hx he
  refine ⟨by rw [hrequests, List.length_map, hlength], ?_⟩
  cases huntold : op.untold? with
  | none =>
    rw [huntold] at hy
    obtain ⟨activity, rfl⟩ := hy
    exact ⟨houtcome, activity, herrors⟩
  | some f =>
    rw [huntold] at hy
    obtain rfl := hy
    exact ⟨houtcome, herrors⟩

/-- An identity that is itself an entity, and one that has lost its own identity. -/
def namelessEntity : Value := .record .data [] (.fixed (.record .data [] (.byAttribute "key")))

def brokenDown : Failure := .raised "OperationFailure" "not primary"

/-- The failure to look for a number is told of; the failure to look for what cannot be shown is lost. -/
theorem engineFailure_reported_shop :
    let session : Session Script := ⟨.start [.failure brokenDown] 0, false⟩
    let told := (shop.contains (.entityId (.int 7))).run scriptedEngine session
    let lost := (shop.contains namelessEntity).run scriptedEngine session
    (told.requests.length = 1 ∧ told.outcome = .error brokenDown ∧ told.errors.length = 1) ∧
      lost.requests.length = 1 ∧ lost.outcome = .error (.missingAttribute "'Data' object" "key") ∧
      lost.errors = [] := by
  intro session told lost
  have reported (op : Operation) := engineFailure_reported (r := shop) rfl rfl op scriptedEngine session
  obtain ⟨_, htold, _⟩ := reported (.contains (.entityId (.int 7))) (by decide)
  obtain ⟨_, hlost, _⟩ := reported (.contains namelessEntity) (by decide)
  obtain ⟨hlength, houtcome, _, herrors⟩ := htold 0 _ brokenDown rfl rfl
  obtain ⟨hlength', houtcome', herrors'⟩ := hlost 0 _ brokenDown rfl rfl
  exact ⟨⟨hlength, houtcome, congrArg List.length herrors⟩, hlength', houtcome', herrors'⟩

end Operation

end EntityStore

import EntityStore.Proofs.Query.Naming
import EntityStore.Proofs.Repository.NativeIdentity
import EntityStore.Proofs.Repository.Operation
import EntityStore.Proofs.Repository.Refetching

namespace EntityStore

open Program

namespace Repository

variable {α : Type} {r : Repository α}

theorem checks_requireIdentity (v : Value) : Checks (requireIdentity v) True (v.isIdentity = true) := by
  rw [requireIdentity]
  cases v.isIdentity with
  | true => exact ⟨fun _ => .ok _, fun _ _ => ⟨_, rfl⟩, fun _ hno => absurd rfl hno⟩
  | false =>
    exact ⟨fun h => absurd h Bool.false_ne_true, fun _ h => absurd h Bool.false_ne_true, fun _ _ => ⟨_, rfl, rfl⟩⟩

theorem checks_requireIdentities (vs : List Value) :
    Checks (vs.forM requireIdentity) True (∀ v ∈ vs, v.isIdentity = true) := by
  induction vs with
  | nil => exact (Checks.ofNeverRefuses (.ok _) fun _ => ⟨_, rfl⟩).imp (fun _ => trivial) (by simp)
  | cons v vs ih =>
    have hboth := (checks_requireIdentity v).bind fun _ => ih
    exact hboth.imp (fun _ => ⟨trivial, trivial⟩) (by simp)

theorem checks_distinctField (fields : Option Selection) :
    Checks (r.distinctField fields)
      (Selection.namesOf fields ≠ [] ∧ ∀ name ∈ Selection.namesOf fields, name.isName = true)
      ((Selection.namesOf fields).length ≤ 1 ∧ r.mapping.MapsAll (Selection.namesOf fields)) := by
  have hnames : (fields.map (·.names)).getD [] = Selection.namesOf fields := by cases fields <;> rfl
  rw [distinctField, hnames]
  match Selection.namesOf fields with
  | [] => exact ⟨fun _ => .error rfl, fun h => absurd rfl h.1, fun h => absurd rfl h.1⟩
  | [name] =>
    refine (r.mapping.checks_storageField name).imp (fun h => h.2 name (by simp)) ?_
    simp [Mapping.MapsAll]
  | first :: second :: rest =>
    refine ⟨fun h => ?_, fun _ h => ?_, fun hnames _ => ?_⟩
    · simp at h
    · simp at h
    · have hspelled : (Value.list (first :: second :: rest)).spelled.isOk = true := by
        rw [Value.isOk_spelled_list, List.all_eq_true]
        exact fun name hname => Value.isOk_spelled_of_isName (hnames.2 name hname)
      obtain ⟨shown, hshown⟩ := Outcome.exists_of_isOk hspelled
      refine ⟨.severalDistinctFields shown, ?_, rfl⟩
      simp only [hshown]
      rfl

section

variable (hhydrate : ∀ make, r.hydrate = some make → ∀ v, NeverRefuses (make v))
include hhydrate

theorem neverRefuses_restored (v : Value) : NeverRefuses (r.restored v) := by
  rw [restored]
  split
  · exact .ok _
  · next make hmake => exact (hhydrate make hmake _).bind fun _ _ => .ok _

theorem neverRefuses_restoredOption (v : Option Value) : NeverRefuses (r.restoredOption v) := by
  cases v with
  | none => exact .ok _
  | some v => exact (neverRefuses_restored hhydrate v).bind fun _ _ => .ok _

end

theorem neverRefuses_doing (activity : String) (entity : Value) : NeverRefuses (doing activity entity) :=
  (Value.neverRefuses_display entity).bind fun _ _ => .ok _

theorem neverRefuses_inOrder (field : String) (keys values : Value) : NeverRefuses (inOrder field keys values) := by
  have hdirection : NeverRefuses (directionFor field keys) := by
    rw [directionFor]
    split
    · refine (Value.neverRefuses_item _ _).bind fun first _ => (Value.neverRefuses_item _ _).bind fun name _ => ?_
      split
      · exact (Value.neverRefuses_item _ _).bind fun _ _ => .ok _
      · exact .ok _
    · exact .ok _
  refine hdirection.bind fun direction _ => ?_
  split
  · refine (Value.neverRefuses_elements values).bind fun items _ => ?_
    exact (Value.neverRefuses_sorted _ items).bind fun _ _ => .ok _
  · refine (Value.neverRefuses_size values).bind fun n _ => ?_
    exact (Value.neverRefuses_elements values).bind fun _ _ => .ok _

theorem neverRefuses_storedDocument (hstrategies : r.strategies = .standard) (entity : Value) :
    NeverRefuses (r.storedDocument entity) := by
  cases hflat : flatten entity with
  | ok flat =>
    rw [storedDocument_of_flatten hstrategies hflat]
    exact .ok _
  | error e =>
    have hdocument : r.storedDocument entity = .error e := by
      rw [storedDocument, hstrategies]
      simp [Strategies.standard, Strategies.flatDocument, hflat]
    rw [hdocument]
    exact .error (neverRefuses_flatten entity e hflat)

/-- The search for what was written names only the native field and the identity. -/
theorem mapsAll_of_writtenFilter {field : String} (h : r.mapping.IsConsistent field) (plans : List PlannedWrite) :
    NeverRefuses (r.writtenFilter plans).outcome ∧ ∀ f, (r.writtenFilter plans).outcome = .ok f →
      r.mapping.MapsAll (FilterArgument.filter f).names := by
  have hnative : r.mapping.maps Mapping.nativeField = true := by simp [Mapping.maps]
  have hidentity : r.mapping.maps r.mapping.identity = true := by
    simp [Mapping.maps, Dictionary.contains, h.identity]
  rcases writtenFilter_cases (r := r) plans with ⟨htold, hfilter⟩ | hfilter | hfilter
  · rw [hfilter]
    refine ⟨.ok _, fun f hf => ?_⟩
    obtain rfl := Except.ok.inj hf
    intro name hname
    obtain ⟨p, hp, rfl⟩ := List.mem_map.mp hname
    have hp : p ∈ writtenClause r.mapping.identity htold := by simpa [Filter.predicates] using hp
    rcases List.mem_append.mp hp with hp | hp
    · obtain ⟨_, rfl⟩ := mem_among.mp hp
      exact hnative
    · obtain ⟨_, rfl⟩ := mem_among.mp hp
      exact hidentity
  · rw [hfilter]
    exact ⟨.error rfl, fun f hf => absurd hf (by simp)⟩
  · rw [hfilter]
    exact ⟨.error rfl, fun f hf => absurd hf (by simp)⟩

section

variable {bad : Prop}

theorem guards_openCursor (query projection keys : Value) : Guards bad (openCursor query projection keys) := by
  refine Guards.bind (Guards.request _) fun _ => ?_
  split
  · exact Guards.request _
  · exact trivial

theorem guards_remove {id : Value} (hid : ¬id.isIdentity = true → bad) : Guards bad (r.remove id) := by
  refine Guards.check (checks_requireIdentity id) hid fun _ _ => ?_
  refine Guards.bind_ofExcept (neverRefuses_identityQuery r.mapping id) fun query _ => ?_
  refine Guards.bind (Guards.during (neverRefuses_doing _ id) (Guards.opened (Guards.request _))) fun n => ?_
  refine Guards.bind_ofExcept (Value.neverRefuses_display n) fun count _ => ?_
  exact Guards.bind_ofExcept (Value.neverRefuses_display id) fun shown _ => trivial

theorem guards_contains {id : Value} (hid : ¬id.isIdentity = true → bad) : Guards bad (r.contains id) := by
  refine Guards.check (checks_requireIdentity id) hid fun _ _ => ?_
  refine Guards.bind_ofExcept (neverRefuses_identityQuery r.mapping id) fun query _ => ?_
  exact Guards.bind (Guards.during (neverRefuses_doing _ id) (Guards.opened (Guards.request _))) fun _ => trivial

theorem guards_updateRecord (entity : Value) (query : Query) (document : Document) :
    Guards bad (r.updateRecord entity query document) := by
  have hupdate : NeverRefuses (r.updateOf document) :=
    (neverRefuses_identityField r.mapping).bind fun _ _ => .ok _
  refine Guards.bind_ofExcept hupdate fun update _ => Guards.bind (Guards.request _) fun stored => ?_
  exact Guards.bind_ofExcept (Value.neverRefuses_display entity) fun shown _ => trivial

theorem guards_insertRecord (entity : Value) (document : Document) :
    Guards bad (r.insertRecord entity document) := by
  refine Guards.bind_ofExcept (neverRefuses_expandFields document) fun expanded _ => ?_
  refine Guards.bind (Guards.request _) fun id => Guards.bind (Guards.request _) fun stored => ?_
  refine Guards.bind_ofExcept (Value.neverRefuses_display entity) fun shown _ => ?_
  exact Guards.bind_ofExcept (Value.neverRefuses_display id) fun shownId _ => trivial

variable (hstrategies : r.strategies = .standard)
include hstrategies

theorem guards_addRecord {entity : Value} (hid : ¬entity.isIdentity = true → bad) :
    Guards bad (r.addRecord entity) := by
  refine Guards.check (checks_requireIdentity entity) hid fun _ _ => ?_
  refine Guards.bind_ofExcept (neverRefuses_storedDocument hstrategies entity) fun document _ => ?_
  refine Guards.bind_ofExcept (neverRefuses_identityQuery r.mapping entity) fun query _ => ?_
  refine Guards.during (neverRefuses_doing _ entity) (Guards.opened ?_)
  refine Guards.bind_ofExcept (Value.neverRefuses_id entity) fun id _ => ?_
  have hwrite (existing : Option Value) : Guards False
      (if existing.isSome then r.updateRecord entity query document else r.insertRecord entity document) := by
    split
    · exact guards_updateRecord entity query document
    · exact guards_insertRecord entity document
  split
  · exact hwrite none
  · exact Guards.bind (Guards.request _) hwrite

theorem guards_planAll (field : String) (entities : List Value) : Guards bad (r.planAll field entities) := by
  have hplan (entity : Value) : Guards False (r.plan field entity) := by
    refine Guards.bind_ofExcept (neverRefuses_storedDocument hstrategies entity) fun document _ => ?_
    refine Guards.bind_ofExcept (Value.neverRefuses_id entity) fun id _ => ?_
    split
    · exact fun fresh => Guards.bind_ofExcept (neverRefuses_expandFields _) fun _ _ => trivial
    · split
      · exact fun he => absurd he Bool.false_ne_true
      · exact Guards.bind_ofExcept ((neverRefuses_identityField r.mapping).bind fun _ _ => .ok _) fun _ _ => trivial
  induction entities generalizing bad with
  | nil => exact trivial
  | cons entity entities ih =>
    exact Guards.bind ((hplan entity).mono False.elim) fun plan => Guards.bind ih fun plans => trivial

omit hstrategies in
theorem guards_writeAll (plans : List PlannedWrite) : Guards bad (r.writeAll plans) := by
  refine Guards.during (.ok _) (Guards.opened (Guards.bind (Guards.request _) fun counts => ?_))
  refine Guards.bind_ofExcept (Value.neverRefuses_display _) fun _ _ => ?_
  refine Guards.bind_ofExcept (Value.neverRefuses_display _) fun _ _ => ?_
  refine Guards.bind_ofExcept (Value.neverRefuses_display _) fun _ _ => Guards.record ?_
  simp only
  split
  · refine Guards.record (Guards.bind_ofExcept ?_ fun expanded _ => Guards.request _)
    exact NeverRefuses.mapM fun document _ => neverRefuses_expandFields document
  · exact trivial

theorem guards_findRecord {id : Value} {fields : Option Selection} (hid : ¬id.isIdentity = true → bad)
    (hfields : ¬r.mapping.MapsAll (Selection.namesOf fields) → bad) : Guards bad (r.findRecord id fields) := by
  refine Guards.check (checks_requireIdentity id) hid fun _ _ => ?_
  refine Guards.bind_ofExcept (neverRefuses_identityQuery r.mapping id) fun query _ => ?_
  rw [hstrategies]
  refine Guards.checkReported (checks_projection r.mapping fields) hfields fun projection _ => ?_
  refine Guards.bind_ofExcept (Value.neverRefuses_display id) fun shown _ => ?_
  refine Guards.bind_ofExcept (Value.neverRefuses_spelled _) fun sought _ => Guards.record ?_
  refine Guards.bind (Guards.during (.ok _) (Guards.opened (Guards.request _))) fun found => ?_
  split
  · exact trivial
  · exact trivial

variable {filter : FilterArgument} {sort : Option SortOrder} {fields : Option Selection}
  (hfilter : ¬r.mapping.MapsAll filter.names → bad) (hsort : ¬r.mapping.MapsAll (SortOrder.names sort) → bad)
include hfilter

theorem guards_count : Guards bad (r.count filter) := by
  rw [count, hstrategies]
  refine Guards.checkReported (checks_filterQuery r.mapping filter) hfilter fun query _ => ?_
  refine Guards.bind_ofExcept (Value.neverRefuses_display query) fun shown _ => Guards.record ?_
  refine Guards.bind (Guards.during (.ok _) (Guards.opened (Guards.request _))) fun n => ?_
  refine Guards.bind_ofExcept (Value.neverRefuses_display n) fun shown _ => Guards.record ?_
  exact Guards.ofExcept (Value.neverRefuses_integer n)

theorem guards_removeAll : Guards bad (r.removeAll filter) := by
  have hquery : Guards bad (do
      let query ← ofReported (r.strategies.filterQuery filter r.mapping)
      let n ← during (.ok "removing entities") do
        r.opened
        request (.deleteMany query)
      let count ← ofExcept n.display
      record .info s!"Deleted {count} document(s) from '{r.mapping.collection}'.") := by
    rw [hstrategies]
    refine Guards.checkReported (checks_filterQuery r.mapping filter) hfilter fun query _ => ?_
    refine Guards.bind (Guards.during (.ok _) (Guards.opened (Guards.request _))) fun n => ?_
    exact Guards.bind_ofExcept (Value.neverRefuses_display n) fun count _ => trivial
  cases filter with
  | absent => exact Guards.bind (Guards.during (.ok _) (Guards.opened (Guards.request _))) fun _ => trivial
  | filter f => exact hquery
  | other v => exact hquery

include hsort

theorem guards_distinctValues
    (hfields : ¬((Selection.namesOf fields).length ≤ 1 ∧ r.mapping.MapsAll (Selection.namesOf fields)) → bad) :
    Guards bad (r.distinctValues fields filter sort) := by
  refine Guards.check (checks_distinctField fields) hfields fun field _ => ?_
  rw [hstrategies]
  refine Guards.checkReported (checks_filterQuery r.mapping filter) hfilter fun query _ => ?_
  refine Guards.checkReported (checks_sortKeys r.mapping sort) hsort fun keys _ => ?_
  refine Guards.bind (Guards.during (.ok _) (Guards.opened (Guards.request _))) fun values => ?_
  exact Guards.bind_ofExcept (neverRefuses_inOrder field keys values) fun items _ => trivial

variable (hfields : ¬r.mapping.MapsAll (Selection.namesOf fields) → bad)
include hfields

theorem guards_findRecords : Guards bad (r.findRecords filter sort fields) := by
  rw [findRecords, hstrategies]
  refine Guards.checkReported (checks_filterQuery r.mapping filter) hfilter fun query _ => ?_
  refine Guards.checkReported (checks_sortKeys r.mapping sort) hsort fun keys _ => ?_
  refine Guards.checkReported (checks_projection r.mapping fields) hfields fun projection _ => ?_
  refine Guards.bind (Guards.during (.ok _) (Guards.opened ?_)) fun records => ?_
  · exact Guards.bind (guards_openCursor _ _ _) fun _ => Guards.request _
  · exact Guards.bind_ofExcept (Value.neverRefuses_display query) fun shown _ => trivial

omit hfilter hsort hfields in
theorem guards_pageRecords {p : PageRequest} (hfilter : ¬r.mapping.MapsAll p.filter.names → bad)
    (hsort : ¬r.mapping.MapsAll (SortOrder.names p.sort) → bad)
    (hfields : ¬r.mapping.MapsAll (Selection.namesOf p.fields) → bad) : Guards bad (r.pageRecords p) := by
  rw [pageRecords, hstrategies]
  refine Guards.checkReported (checks_filterQuery r.mapping p.filter) hfilter fun query _ => ?_
  refine Guards.checkReported (checks_sortKeys r.mapping p.sort) hsort fun keys _ => ?_
  refine Guards.checkReported (checks_projection r.mapping p.fields) hfields fun projection _ => ?_
  refine Guards.bind_ofExcept (Value.neverRefuses_display query) fun shown _ => ?_
  refine Guards.bind_ofExcept (neverRefuses_shown _) fun skip _ => ?_
  refine Guards.bind_ofExcept (neverRefuses_shown _) fun limit _ => Guards.record ?_
  refine Guards.during (.ok _) (Guards.opened (Guards.bind (Guards.request _) fun total => ?_))
  refine Guards.bind (guards_openCursor _ _ _) fun _ => Guards.bind (Guards.request _) fun _ => ?_
  exact Guards.bind (Guards.request _) fun _ => Guards.bind (Guards.request _) fun records => trivial

end

section

variable {bad : Prop} (hstrategies : r.strategies = .standard)
  (hhydrate : ∀ make, r.hydrate = some make → ∀ v, NeverRefuses (make v))
  {filter : FilterArgument} {sort : Option SortOrder} {fields : Option Selection}
include hstrategies hhydrate

theorem guards_findBy (hfilter : ¬r.mapping.MapsAll filter.names → bad)
    (hsort : ¬r.mapping.MapsAll (SortOrder.names sort) → bad)
    (hfields : ¬r.mapping.MapsAll (Selection.namesOf fields) → bad) :
    Guards bad (r.findBy filter sort fields) :=
  Guards.bind (guards_findRecords hstrategies hfilter hsort hfields) fun _ =>
    Guards.ofExcept (NeverRefuses.mapM fun v _ => neverRefuses_restored hhydrate v)

theorem guards_findByDistinct (hfilter : ¬r.mapping.MapsAll filter.names → bad)
    (hsort : ¬r.mapping.MapsAll (SortOrder.names sort) → bad)
    (hfields : ¬((Selection.namesOf fields).length ≤ 1 ∧ r.mapping.MapsAll (Selection.namesOf fields)) → bad) :
    Guards bad (r.findByDistinct fields filter sort) := by
  refine Guards.bind (guards_distinctValues hstrategies hfilter hsort hfields) fun values => ?_
  refine Guards.ofExcept (NeverRefuses.mapM fun v _ => ?_)
  rw [restoredValue]
  split
  · exact neverRefuses_restored hhydrate v
  · exact .ok _

theorem guards_findPage {p : PageRequest} (hfilter : ¬r.mapping.MapsAll p.filter.names → bad)
    (hsort : ¬r.mapping.MapsAll (SortOrder.names p.sort) → bad)
    (hfields : ¬r.mapping.MapsAll (Selection.namesOf p.fields) → bad) : Guards bad (r.findPage p) := by
  refine Guards.bind (guards_pageRecords hstrategies hfilter hsort hfields) fun found => ?_
  refine Guards.bind_ofExcept (NeverRefuses.mapM fun v _ => neverRefuses_restored hhydrate v) fun content _ => ?_
  exact Guards.ofExcept (neverRefuses_pageOfRequest _ _ p)

/-- The search at the end of adding entities comes after their writes and can refuse nothing. -/
theorem guards_addAll {field : String} (h : r.mapping.IsConsistent field) {entities : Value}
    (hid : ∀ items, entities.elements = .ok items → ¬(∀ v ∈ items, v.isIdentity = true) → bad) :
    Guards bad (r.addAll entities) := by
  refine Guards.bind_ofExcept (Value.neverRefuses_elements entities) fun items hitems => ?_
  refine Guards.check (checks_requireIdentities items) (hid items hitems) fun _ _ => ?_
  split
  · exact trivial
  · refine Guards.bind_ofExcept (neverRefuses_identityField r.mapping) fun name _ => ?_
    refine Guards.bind (guards_planAll hstrategies name items) fun plans => ?_
    refine Guards.bind (guards_writeAll plans) fun _ => ?_
    obtain ⟨hnever, hnames⟩ := mapsAll_of_writtenFilter h plans
    refine Guards.bind_ofReported hnever fun f hf => ?_
    refine guards_findBy hstrategies hhydrate (fun hno => hno (hnames f hf)) (fun hno => ?_) fun hno => ?_
    · exact hno (List.forall_mem_nil _)
    · exact hno (List.forall_mem_nil _)

end

end Repository

end EntityStore

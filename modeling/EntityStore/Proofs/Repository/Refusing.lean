import EntityStore.Engine.Scripted
import EntityStore.Proofs.Repository.Guarding
import EntityStore.Proofs.Repository.Operation

namespace EntityStore

open Program

namespace Operation

/-- The selection of which distinct values are asked for. -/
def distinctFields : Operation → List Value
  | .findByDistinct fields _ _ => Selection.namesOf fields
  | .findAll (some p) => Selection.namesOf p.distinct
  | _ => []

def filter : Operation → FilterArgument
  | .findBy filter _ _ | .findByDistinct _ filter _ | .count filter | .removeAll filter => filter
  | .findAll (some p) => p.filter
  | _ => .absent

def sort : Operation → Option SortOrder
  | .findBy _ sort _ | .findByDistinct _ _ sort => sort
  | .findAll (some p) => p.sort
  | _ => none

/-- The selection of the fields of which entities are made. Distinct values are not cut to one. -/
def selection : Operation → Option Selection
  | .find _ fields | .findBy _ _ fields => fields
  | .findAll (some p) => if (Selection.namesOf p.distinct).isEmpty then p.fields else none
  | _ => none

/-- The logical fields that an operation names. -/
def names (op : Operation) : List Value :=
  op.filter.names ++ SortOrder.names op.sort ++ Selection.namesOf op.selection ++ op.distinctFields

/-- What an operation takes for identities. -/
def identities : Operation → List Value
  | .find id _ | .contains id | .add id | .remove id => [id]
  | .addAll entities => entities.elements.toOption.getD []
  | _ => []

/-- Whether an operation names only fields that are stored, takes only identities for such, and asks for the
distinct values of one field at most. -/
structure IsAcceptable (m : Mapping) (op : Operation) : Prop where
  names : m.MapsAll op.names
  identities : ∀ v ∈ op.identities, v.isIdentity = true
  distinct : op.distinctFields.length ≤ 1

/-- Whether nothing else is wrong with what an operation is given. -/
structure IsWellFormed (op : Operation) : Prop where
  filter : op.filter.isUsable = true
  names : ∀ name ∈ op.names, name.isName = true
  identities : ∀ v ∈ op.identities, v.isIdentity = true → ∃ id, v.id = .ok id
  elements : ∀ entities, op = .addAll entities → ∃ items, entities.elements = .ok items
  distinct : ∀ fields filter sort, op = .findByDistinct fields filter sort → Selection.namesOf fields ≠ []

variable {σ α : Type} {r : Repository α}

section

variable {field : String} (h : r.mapping.IsConsistent field) (hstrategies : r.strategies = .standard)
include h hstrategies

omit h in
/-- A page has distinct values if fields are named for that, and entities if not. -/
theorem guards_findAll (hhydrate : ∀ make, r.hydrate = some make → ∀ v, NeverRefuses (make v)) {bad : Prop}
    {p : PageRequest} (hfilter : ¬r.mapping.MapsAll p.filter.names → bad)
    (hsort : ¬r.mapping.MapsAll (SortOrder.names p.sort) → bad)
    (hselection : ¬r.mapping.MapsAll (Selection.namesOf (selection (.findAll (some p)))) → bad)
    (hdistinct : ¬((Selection.namesOf p.distinct).length ≤ 1 ∧
      r.mapping.MapsAll (Selection.namesOf p.distinct)) → bad) :
    Guards bad (r.findAll (some p)) := by
  have hpage (hempty : (Selection.namesOf p.distinct).isEmpty = true) : Guards bad (r.findPage p) := by
    rw [selection, if_pos hempty] at hselection
    exact Repository.guards_findPage hstrategies hhydrate hfilter hsort hselection
  rw [Repository.findAll]
  split
  · next hnone => exact hpage (by simp [hnone, Selection.namesOf])
  · next fields hsome =>
    split
    · next hempty => exact hpage (by simpa [hsome, Selection.namesOf, Selection.isEmpty] using hempty)
    · rw [hsome] at hdistinct
      refine Guards.bind (Repository.guards_findByDistinct hstrategies hhydrate hfilter hsort hdistinct) ?_
      exact fun values => Guards.ofExcept (neverRefuses_pageOfRequest _ _ p)

theorem guards_program (hhydrate : ∀ make, r.hydrate = some make → ∀ v, NeverRefuses (make v)) (op : Operation) :
    Guards (¬op.IsAcceptable r.mapping) (op.program r) := by
  have hfilter (hno : ¬r.mapping.MapsAll op.filter.names) : ¬op.IsAcceptable r.mapping :=
    fun hop => hno fun name hname => hop.names name (by simp [names, hname])
  have hsort (hno : ¬r.mapping.MapsAll (SortOrder.names op.sort)) : ¬op.IsAcceptable r.mapping :=
    fun hop => hno fun name hname => hop.names name (by simp [names, hname])
  have hselection (hno : ¬r.mapping.MapsAll (Selection.namesOf op.selection)) : ¬op.IsAcceptable r.mapping :=
    fun hop => hno fun name hname => hop.names name (by simp [names, hname])
  have hdistinct (hno : ¬(op.distinctFields.length ≤ 1 ∧ r.mapping.MapsAll op.distinctFields)) :
      ¬op.IsAcceptable r.mapping :=
    fun hop => hno ⟨hop.distinct, fun name hname => hop.names name (by simp [names, hname])⟩
  cases op with
  | find id fields =>
    have hid (hno : ¬id.isIdentity = true) : ¬(Operation.find id fields).IsAcceptable r.mapping :=
      fun hop => hno (hop.identities id (by simp [identities]))
    exact Guards.bind (Repository.guards_findRecord hstrategies hid hselection) fun _ =>
      Guards.ofExcept (Repository.neverRefuses_restoredOption hhydrate _)
  | findBy filter sort fields =>
    exact Repository.guards_findBy hstrategies hhydrate hfilter hsort hselection
  | findByDistinct fields filter sort =>
    exact Repository.guards_findByDistinct hstrategies hhydrate hfilter hsort hdistinct
  | findAll request =>
    cases request with
    | none =>
      exact Guards.bind (Repository.guards_findBy hstrategies hhydrate hfilter hsort hselection) fun _ => trivial
    | some p => exact guards_findAll hstrategies hhydrate hfilter hsort hselection hdistinct
  | count filter => exact Repository.guards_count hstrategies hfilter
  | contains id => exact Repository.guards_contains fun hno hop => hno (hop.identities id (by simp [identities]))
  | add entity =>
    have hid (hno : ¬entity.isIdentity = true) : ¬(Operation.add entity).IsAcceptable r.mapping :=
      fun hop => hno (hop.identities entity (by simp [identities]))
    exact Guards.bind (Repository.guards_addRecord hstrategies hid) fun _ =>
      Guards.ofExcept (Repository.neverRefuses_restoredOption hhydrate _)
  | addAll entities =>
    refine Repository.guards_addAll hstrategies hhydrate h fun items hitems hno hop => hno ?_
    simpa [identities, hitems, Except.toOption] using hop.identities
  | remove id => exact Repository.guards_remove fun hno hop => hno (hop.identities id (by simp [identities]))
  | removeAll filter => exact Repository.guards_removeAll hstrategies hfilter

omit h in
theorem refuses_reading {filter : FilterArgument} {sort : Option SortOrder} {fields : Option Selection}
    (hfilter : filter.isUsable = true) (hsort : ∀ name ∈ SortOrder.names sort, name.isName = true)
    (hfields : ∀ name ∈ Selection.namesOf fields, name.isName = true)
    (hno : r.mapping.MapsAll filter.names → r.mapping.MapsAll (SortOrder.names sort) →
      ¬r.mapping.MapsAll (Selection.namesOf fields)) {β : Type} (next : Value → Value → Value → Program β) :
    Refuses (do
      let query ← ofReported (r.strategies.filterQuery filter r.mapping)
      let keys ← ofReported (r.strategies.sortKeys sort r.mapping)
      let projection ← ofReported (r.strategies.projection fields r.mapping)
      next query keys projection) := by
  rw [hstrategies]
  refine Refuses.checkReported (checks_filterQuery r.mapping filter) hfilter fun hfilters query => ?_
  refine Refuses.checkReported (checks_sortKeys r.mapping sort) hsort fun hsorts keys => ?_
  exact Refuses.checkReported (checks_projection r.mapping fields) hfields fun hselects _ =>
    absurd hselects (hno hfilters hsorts)

omit h in
theorem refuses_findByDistinct {filter : FilterArgument} {sort : Option SortOrder} {fields : Option Selection}
    (hne : Selection.namesOf fields ≠ []) (hfilter : filter.isUsable = true)
    (hsort : ∀ name ∈ SortOrder.names sort, name.isName = true)
    (hfields : ∀ name ∈ Selection.namesOf fields, name.isName = true)
    (hno : (Selection.namesOf fields).length ≤ 1 ∧ r.mapping.MapsAll (Selection.namesOf fields) →
      r.mapping.MapsAll filter.names → ¬r.mapping.MapsAll (SortOrder.names sort)) :
    Refuses (r.findByDistinct fields filter sort) := by
  refine Refuses.bind ?_
  refine Refuses.check (Repository.checks_distinctField fields) ⟨hne, hfields⟩ fun hdistinct field => ?_
  rw [hstrategies]
  refine Refuses.checkReported (checks_filterQuery r.mapping filter) hfilter fun hfilters query => ?_
  exact Refuses.checkReported (checks_sortKeys r.mapping sort) hsort fun hsorts _ =>
    absurd hsorts (hno hdistinct hfilters)

omit h in
theorem refuses_findAll {p : PageRequest} (hfilter : p.filter.isUsable = true)
    (hsort : ∀ name ∈ SortOrder.names p.sort, name.isName = true)
    (hselection : ∀ name ∈ Selection.namesOf (selection (.findAll (some p))), name.isName = true)
    (hdistinct : ∀ name ∈ Selection.namesOf p.distinct, name.isName = true)
    (hno : (Selection.namesOf p.distinct).length ≤ 1 ∧ r.mapping.MapsAll (Selection.namesOf p.distinct) →
      r.mapping.MapsAll p.filter.names → r.mapping.MapsAll (SortOrder.names p.sort) →
      ¬r.mapping.MapsAll (Selection.namesOf (selection (.findAll (some p))))) :
    Refuses (r.findAll (some p)) := by
  have hpage (hempty : Selection.namesOf p.distinct = []) : Refuses (r.findPage p) := by
    have hdistincts : (Selection.namesOf p.distinct).length ≤ 1 ∧
        r.mapping.MapsAll (Selection.namesOf p.distinct) := by
      rw [hempty]
      exact ⟨Nat.zero_le _, List.forall_mem_nil _⟩
    rw [selection, if_pos (by simp [hempty])] at hselection hno
    exact Refuses.bind (refuses_reading hstrategies hfilter hsort hselection (hno hdistincts) _)
  rw [Repository.findAll]
  split
  · next hsome => exact hpage (by simp [hsome, Selection.namesOf])
  · next fields hsome =>
    split
    · next hempty => exact hpage (by simpa [hsome, Selection.namesOf, Selection.isEmpty] using hempty)
    · next hne =>
      have hnonempty : Selection.namesOf (some fields) ≠ [] := by
        simpa [Selection.namesOf, Selection.isEmpty] using hne
      have hwhole : selection (.findAll (some p)) = none := by
        rw [selection, hsome, if_neg (by simpa using hnonempty)]
      rw [hwhole] at hno
      rw [hsome] at hdistinct hno
      refine Refuses.bind (refuses_findByDistinct hstrategies hnonempty hfilter hsort hdistinct ?_)
      exact fun hdistincts hfilters hsorts => hno hdistincts hfilters hsorts (List.forall_mem_nil _)

/-- What is wrong with an operation is found before anything is asked. -/
theorem refuses_program {op : Operation} (hop : op.IsWellFormed) (hbad : ¬op.IsAcceptable r.mapping) :
    Refuses (op.program r) := by
  have hsort : ∀ name ∈ SortOrder.names op.sort, name.isName = true :=
    fun name hname => hop.names name (by simp [names, hname])
  have hselection : ∀ name ∈ Selection.namesOf op.selection, name.isName = true :=
    fun name hname => hop.names name (by simp [names, hname])
  have hdistinct : ∀ name ∈ op.distinctFields, name.isName = true :=
    fun name hname => hop.names name (by simp [names, hname])
  have hnone : r.mapping.MapsAll [] := List.forall_mem_nil _
  have hno (hids : ∀ v ∈ op.identities, v.isIdentity = true)
      (hdistincts : op.distinctFields.length ≤ 1 ∧ r.mapping.MapsAll op.distinctFields)
      (hfilters : r.mapping.MapsAll op.filter.names) (hsorts : r.mapping.MapsAll (SortOrder.names op.sort)) :
      ¬r.mapping.MapsAll (Selection.namesOf op.selection) := by
    intro hselects
    refine hbad ⟨fun name hname => ?_, hids, hdistincts.1⟩
    simp only [names, List.mem_append] at hname
    rcases hname with ((hname | hname) | hname) | hname
    · exact hfilters name hname
    · exact hsorts name hname
    · exact hselects name hname
    · exact hdistincts.2 name hname
  cases op with
  | find id fields =>
    refine Refuses.bind (Refuses.check (Repository.checks_requireIdentity id) trivial fun hid _ => ?_)
    obtain ⟨v, htells⟩ := hop.identities id (by simp [identities]) hid
    refine Refuses.bind_ok (h.identityQuery_eq htells) ?_
    rw [hstrategies]
    refine Refuses.checkReported (checks_projection r.mapping fields) hselection fun hselects _ => ?_
    exact absurd hselects (hno (by simpa [identities] using hid) ⟨Nat.zero_le _, hnone⟩ hnone hnone)
  | findBy filter sort fields =>
    exact Refuses.bind (refuses_reading hstrategies hop.filter hsort hselection
      (hno (List.forall_mem_nil _) ⟨Nat.zero_le _, hnone⟩) _)
  | findByDistinct fields filter sort =>
    exact refuses_findByDistinct hstrategies (hop.distinct fields filter sort rfl) hop.filter hsort hdistinct
      fun hdistincts hfilters hsorts => hno (List.forall_mem_nil _) hdistincts hfilters hsorts hnone
  | findAll request =>
    cases request with
    | none => exact absurd hnone (hno (List.forall_mem_nil _) ⟨Nat.zero_le _, hnone⟩ hnone hnone)
    | some p =>
      exact refuses_findAll hstrategies hop.filter hsort hselection hdistinct (hno (List.forall_mem_nil _))
  | count filter =>
    change Refuses (r.count filter)
    rw [Repository.count, hstrategies]
    refine Refuses.checkReported (checks_filterQuery r.mapping filter) hop.filter fun hfilters _ => ?_
    exact absurd hnone (hno (List.forall_mem_nil _) ⟨Nat.zero_le _, hnone⟩ hfilters hnone)
  | contains id =>
    refine Refuses.check (Repository.checks_requireIdentity id) trivial fun hid _ => ?_
    exact absurd hnone (hno (by simpa [identities] using hid) ⟨Nat.zero_le _, hnone⟩ hnone hnone)
  | add entity =>
    refine Refuses.bind (Refuses.check (Repository.checks_requireIdentity entity) trivial fun hid _ => ?_)
    exact absurd hnone (hno (by simpa [identities] using hid) ⟨Nat.zero_le _, hnone⟩ hnone hnone)
  | addAll entities =>
    obtain ⟨items, hitems⟩ := hop.elements entities rfl
    refine Refuses.bind_ok hitems ?_
    refine Refuses.check (Repository.checks_requireIdentities items) trivial fun hids _ => ?_
    refine absurd hnone (hno ?_ ⟨Nat.zero_le _, hnone⟩ hnone hnone)
    simpa [identities, hitems, Except.toOption] using hids
  | remove id =>
    refine Refuses.check (Repository.checks_requireIdentity id) trivial fun hid _ => ?_
    exact absurd hnone (hno (by simpa [identities] using hid) ⟨Nat.zero_le _, hnone⟩ hnone hnone)
  | removeAll filter =>
    change Refuses (r.removeAll filter)
    cases filter with
    | absent => exact absurd hnone (hno (List.forall_mem_nil _) ⟨Nat.zero_le _, hnone⟩ hnone hnone)
    | other v => exact absurd hop.filter Bool.false_ne_true
    | filter f =>
      rw [Repository.removeAll, hstrategies]
      · refine Refuses.checkReported (checks_filterQuery r.mapping _) hop.filter fun hfilters _ => ?_
        exact absurd hnone (hno (List.forall_mem_nil _) ⟨Nat.zero_le _, hnone⟩ hfilters hnone)
      · intro habsent
        cases habsent

end

/-- An operation refuses what is not acceptable before anything happens but that records are left, and it refuses
nothing else: neither what is acceptable, nor anything once the engine has been asked. -/
theorem refusal_before_requests (hvalid : r.mapping.validate = .ok ()) (hstrategies : r.strategies = .standard)
    (op : Operation) (engine : Engine σ) (s : Session σ) :
    let t := (op.program r).run engine s
    (op.IsWellFormed → ¬op.IsAcceptable r.mapping →
      ∃ e, t.outcome = .error e ∧ e.isRefusal = true ∧ t.IsIdle) ∧
    ((∀ make, r.hydrate = some make → ∀ v, NeverRefuses (make v)) →
      (∀ x ∈ (op.program r).conversation engine s.engine, NeverRefuses x.reply) →
      ∀ e, t.outcome = .error e → e.isRefusal = true → ¬op.IsAcceptable r.mapping ∧ t.IsIdle) := by
  obtain ⟨field, h⟩ := Mapping.isConsistent_of_validate hvalid
  constructor
  · intro hop hbad
    exact (refuses_program h hstrategies hop hbad).isIdle s
  · intro hhydrate hengine e he hrefusal
    exact (guards_program h hstrategies hhydrate op).refusal s hengine he hrefusal

/-- Shoppers of a name and those of a town, which is not stored. -/
def townspeople : Operation :=
  .findBy (.filter ⟨[⟨"name", .equality true (.text "Ken"), Value.isOk_spelled_text "Ken"⟩], [],
      [⟨"town", .equality true (.text "Bath"), Value.isOk_spelled_text "Bath"⟩]⟩)
    (some ⟨[(.text "orders", .descending)]⟩) none

theorem refusal_before_requests_shop :
    let t := (townspeople.program shop).run scriptedEngine ⟨.start [.value (.list [])] 0, false⟩
    townspeople.IsWellFormed ∧ ∃ e, t.outcome = .error e ∧ e.isRefusal = true ∧
      ¬townspeople.IsAcceptable shoppers ∧ t.IsIdle := by
  obtain ⟨hrefused, hreason⟩ := refusal_before_requests (r := shop) rfl rfl townspeople scriptedEngine
    ⟨.start [.value (.list [])] 0, false⟩
  have hwell : townspeople.IsWellFormed := by
    refine ⟨rfl, by decide, List.forall_mem_nil _, ?_, ?_⟩
    · intro entities h
      cases h
    · intro fields filter sort h
      cases h
  have hbad : ¬townspeople.IsAcceptable shoppers := by
    intro h
    exact Bool.false_ne_true (h.names (.text "town") (by simp [townspeople, names, filter, FilterArgument.names,
      Filter.predicates]))
  obtain ⟨e, he, hrefusal, _⟩ := hrefused hwell hbad
  refine ⟨hwell, e, he, hrefusal, ?_⟩
  have hplain : ∀ make, shop.hydrate = some make → ∀ v, NeverRefuses (make v) := by
    intro make h
    cases h
  exact hreason hplain (List.forall_mem_nil _) e he hrefusal

end Operation

end EntityStore

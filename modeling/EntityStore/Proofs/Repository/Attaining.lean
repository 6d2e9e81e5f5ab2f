import EntityStore.Proofs.Repository.Inserting
import EntityStore.Proofs.Repository.NamedEntity
import EntityStore.Proofs.Repository.Sending
import EntityStore.Proofs.Repository.StorageNames

namespace EntityStore

open Document Expand Flatten
open Mapping (nativeField)

/-- Whether an update sets a value under a storage name. An update sets neither the identity nor the native field. -/
def Document.Sets (field storage : String) (w : Value) (update : Document) : Prop :=
  ∃ changes, update = settingFields changes ∧
    (storage ≠ field → storage ≠ nativeField → Dictionary.get? (.text storage) changes = some w)

/-- Whether one write among several stores a value under a storage name. A document that is inserted holds an
identifier in the native field. An update looks for the identity that it does not set. -/
def BulkWrite.Stores (field storage : String) (w : Value) : BulkWrite → Prop
  | .insert d =>
    (storage = nativeField → ∃ o, d.stored? nativeField = some (.objectId o)) ∧
      (storage ≠ nativeField → d.stored? storage = some w)
  | .upsert query update => update.Sets field storage w ∧ (storage = field → query = [(.text field, w)])

/-- Whether all that a request writes of an entity stores a value under a storage name. -/
def Request.Stores (field storage : String) (w : Value) : Request → Prop
  | .insertOne d => d.stored? storage = some w
  | .findOneAndUpdate _ update => ∃ changes, update = .plain changes ∧ changes.Sets field storage w
  | _ => True

/-- Whether all that a request writes of some entities stores what a logical name leads to in each of them under a
storage name. -/
def Request.StoresAll (name field storage : String) (entities : List Value) : Request → Prop
  | .bulkWrite writes _ => List.Forall₂ (fun entity write =>
      ∀ v, entity.attained? name = some v → BulkWrite.Stores field storage v.kept write) entities writes
  | .insertMany documents => ∃ known, known.Sublist entities ∧ List.Forall₂ (fun entity d =>
      ∀ v, entity.attained? name = some v → Document.stored? storage d = some v.kept) known documents
  | _ => True

/-- Outside the native field, documents store the same if they hold the same there. -/
theorem Document.stored?_of_withoutNative {d e : Document} {s : String} (h : e.withoutNative = d.withoutNative)
    (hs : Path.start s ≠ nativeField) : e.stored? s = d.stored? s := by
  obtain ⟨p, hp⟩ := Path.exists_ofText s
  rw [stored?, stored?, hp]
  apply valueAt?_congr
  rw [← get?_withoutNative hs, h, get?_withoutNative hs]

namespace Repository

open Program

variable {α σ : Type} {r : Repository α} {name storage field : String} {entity w : Value}

/-- What is written of an entity, by itself or among others, stores a value under a storage name. -/
structure Writes (r : Repository α) (field storage : String) (entity w : Value) : Prop where
  stored : ∀ document, r.storedDocument entity = .ok document → Dictionary.get? (.text storage) document = some w
  expanded : ∀ document d, r.storedDocument entity = .ok document → expandFields document = .ok d →
    d.stored? storage = some w
  updated : ∀ document update, r.storedDocument entity = .ok document → r.updateOf document = .ok update →
    update.Sets field storage w
  inserted : ∀ document d o, r.storedDocument entity = .ok document →
    expandFields (Dictionary.insert (.text nativeField) (.objectId o) document) = .ok d →
    BulkWrite.Stores field storage w (.insert d)

theorem writes (h : r.mapping.IsConsistent field) (hstrategies : r.strategies = .standard)
    (hname : Dictionary.get? name r.mapping.fields = some storage)
    (hidentity : r.mapping.generatesIds = true → name ≠ r.mapping.identity) {flat : Document}
    (hflat : flatten entity = .ok flat) : r.Writes field storage entity (flat.valueOf name) := by
  have hmem : (name, storage) ∈ r.mapping.fields := Dictionary.mem_of_get? hname
  -- The native field is the one of the identity if it is generated, and that has another name.
  have hwritten : r.mapping.writtenAs storage (flat.valueOf name) = some (flat.valueOf name) := by
    cases hgenerates : r.mapping.generatesIds with
    | false => exact Mapping.writtenAs_of_given hgenerates storage _
    | true =>
      obtain rfl := h.native hgenerates
      apply Mapping.writtenAs_of_ne
      rintro rfl
      have hsame := h.eq_of_storage hmem h.mem_fields rfl
      exact hidentity hgenerates (Prod.mk.inj hsame).1
  obtain ⟨document, expanded, changes, hdocument, hexpanded, hupdate, hget, hstored, hchanges⟩ :=
    writesUnder h hstrategies hname entity flat hflat
  rw [hwritten] at hget hstored hchanges
  constructor
  · intro document' hdocument'
    obtain rfl := Except.ok.inj (hdocument.symm.trans hdocument')
    exact hget
  · intro document' d hdocument' hd
    obtain rfl := Except.ok.inj (hdocument.symm.trans hdocument')
    obtain rfl := Except.ok.inj (hexpanded.symm.trans hd)
    exact hstored
  · intro document' update hdocument' hupdate'
    obtain rfl := Except.ok.inj (hdocument.symm.trans hdocument')
    obtain rfl := Except.ok.inj (hupdate.symm.trans hupdate')
    refine ⟨changes, rfl, fun hfield hnative => hchanges (fun hidentity => hfield ?_) hnative⟩
    exact Except.ok.inj (hidentity.symm.trans h.identityField_eq)
  · intro document' d o hdocument' hd
    have hwrittenEntries := storedDocument_eq_written h hstrategies hflat
    rw [hwrittenEntries] at hdocument hdocument'
    obtain rfl := Except.ok.inj hdocument
    obtain rfl := Except.ok.inj hdocument'
    by_cases hnests : r.mapping.NestsNative
    · rw [h.expandFields_fresh_error hnests hflat o] at hd
      cases hd
    · obtain ⟨e, he, hsame, hid⟩ := h.exists_expanded_fresh hnests hflat hexpanded o
      obtain rfl := Except.ok.inj (he.symm.trans hd)
      constructor
      · intro _
        exact ⟨o, by rw [stored?_nativeField, hid]⟩
      · intro hnative
        have hstart : Path.start storage ≠ nativeField := fun hstart => hnests ⟨_, hmem, hstart, hnative⟩
        rw [stored?_of_withoutNative hsame hstart]
        exact hstored

/-- What adding an entity by itself writes stores the value. -/
theorem asks_add (hwrites : r.Writes field storage entity w) :
    (r.add entity).Asks (Request.Stores field storage w) := by
  refine Asks.bind ?_ fun _ => Asks.ofExcept _
  refine Asks.bind_ofExcept fun _ _ => Asks.bind_ofExcept fun document hdocument => ?_
  refine Asks.bind_ofExcept fun query _ => Asks.during _ (Asks.bind_opened (Asks.bind_ofExcept fun id _ => ?_))
  have hwriting (existing : Option Value) :
      (if existing.isSome = true then r.updateRecord entity query document
        else r.insertRecord entity document).Asks (Request.Stores field storage w) := by
    split
    · refine Asks.bind_ofExcept fun update hupdate => Asks.bind_request ?_ fun stored => ?_
      · exact ⟨update, rfl, hwrites.updated document update hdocument hupdate⟩
      · exact Asks.bind_ofExcept fun _ _ => trivial
    · refine Asks.bind_ofExcept fun expanded hexpanded => Asks.bind_request ?_ fun id => Asks.bind_request trivial ?_
      · exact hwrites.expanded document expanded hdocument hexpanded
      · exact fun stored => Asks.bind_ofExcept fun _ _ => Asks.bind_ofExcept fun _ _ => trivial
  split
  · exact hwriting none
  · exact Asks.bind (Asks.request trivial) hwriting

/-- A planned write of an entity that stores the value, also if the document is inserted after all. -/
structure PlannedWrite.Stores (field storage : String) (w : Value) (p : PlannedWrite) : Prop where
  bulkWrite : p.bulkWrite.Stores field storage w
  known : ∀ document d, p.knownDocument? = some document → expandFields document = .ok d → d.stored? storage = some w

theorem yields_plan_stores (hwrites : r.Writes field storage entity w) :
    (r.plan field entity).Yields (PlannedWrite.Stores field storage w) := by
  refine Yields.bind_ofExcept fun document hdocument => Yields.bind_ofExcept fun id _ => ?_
  split
  · intro fresh
    refine Yields.bind_ofExcept fun expanded hexpanded => ⟨?_, fun _ _ hknown => nomatch hknown⟩
    exact hwrites.inserted document expanded fresh hdocument hexpanded
  · split
    · exact trivial
    · next stored hstored =>
      refine Yields.bind_ofExcept fun update hupdate => ⟨⟨?_, ?_⟩, ?_⟩
      · exact hwrites.updated document update hdocument hupdate
      · rintro rfl
        rw [hwrites.stored document hdocument] at hstored
        rw [Option.some.inj hstored]
      · intro document' d hknown hd
        obtain rfl := Option.some.inj hknown
        exact hwrites.expanded document d hdocument hd

section

variable {entities : List Value} {plans : List PlannedWrite}

/-- Whether a planned write stores what a logical name leads to in an entity. -/
def PlannedWrite.StoresOf (name field storage : String) (entity : Value) (p : PlannedWrite) : Prop :=
  ∀ v, entity.attained? name = some v → p.Stores field storage v.kept

/-- One write is planned for each entity, and stores what the name leads to in it. -/
theorem yields_planAll_stores
    (hwrites : ∀ e ∈ entities, ∀ v, e.attained? name = some v → r.Writes field storage e v.kept) :
    (r.planAll field entities).Yields (List.Forall₂ (PlannedWrite.StoresOf name field storage) entities) := by
  induction entities with
  | nil => exact .nil
  | cons entity rest ih =>
    obtain ⟨hfirst, hrest⟩ := List.forall_mem_cons.mp hwrites
    have hplan : (r.plan field entity).Yields (PlannedWrite.StoresOf name field storage entity) := by
      cases hattained : entity.attained? name with
      | none => exact Yields.of_forall fun p v hv => nomatch hattained.symm.trans hv
      | some v =>
        refine (yields_plan_stores (hfirst v hattained)).mono fun p hstores v' hv' => ?_
        obtain rfl := Option.some.inj (hattained.symm.trans hv')
        exact hstores
    exact Yields.bind hplan fun first hstores => Yields.bind (ih hrest) fun others hothers => .cons hstores hothers

/-- The documents that are inserted after all are those of some of the entities, in order. -/
theorem exists_known (hplans : List.Forall₂ (PlannedWrite.StoresOf name field storage) entities plans)
    {expanded : List Document} (hexpanded : (plans.filterMap (·.knownDocument?)).mapM expandFields = .ok expanded) :
    ∃ known, known.Sublist entities ∧ List.Forall₂ (fun entity d =>
      ∀ v, entity.attained? name = some v → Document.stored? storage d = some v.kept) known expanded := by
  induction hplans generalizing expanded with
  | nil =>
    obtain rfl := Except.ok.inj hexpanded
    exact ⟨[], List.Sublist.refl [], .nil⟩
  | @cons entity plan entities plans hplan hplans ih =>
    cases hknown : plan.knownDocument? with
    | none =>
      rw [List.filterMap_cons_none hknown] at hexpanded
      obtain ⟨known, hsublist, hstored⟩ := ih hexpanded
      exact ⟨known, hsublist.cons entity, hstored⟩
    | some document =>
      rw [List.filterMap_cons_some hknown, List.mapM_cons] at hexpanded
      obtain ⟨d, hd, hexpanded⟩ := Outcome.bind_eq_ok.mp hexpanded
      obtain ⟨rest, hrest, hexpanded⟩ := Outcome.bind_eq_ok.mp hexpanded
      obtain rfl := Except.ok.inj hexpanded
      obtain ⟨known, hsublist, hstored⟩ := ih hrest
      refine ⟨entity :: known, hsublist.cons_cons entity, .cons ?_ hstored⟩
      exact fun v hv => (hplan v hv).known document d hknown hd

theorem asks_writeAll (hplans : List.Forall₂ (PlannedWrite.StoresOf name field storage) entities plans) :
    (r.writeAll plans).Asks (Request.StoresAll name field storage entities) := by
  refine Asks.during _ (Asks.bind_opened (Asks.bind_request ?_ fun counts => ?_))
  · refine List.forall₂_map_right_iff.mpr (hplans.imp fun entity p hp v hv => (hp v hv).bulkWrite)
  · refine Asks.bind_ofExcept fun _ _ => Asks.bind_ofExcept fun _ _ => Asks.bind_ofExcept fun _ _ => ?_
    refine Asks.bind_record ?_
    simp only
    split
    · refine Asks.bind_record (Asks.bind_ofExcept fun expanded hexpanded => Asks.request ?_)
      exact exists_known hplans hexpanded
    · exact trivial

/-- A search asks nothing that writes. -/
theorem asks_findBy {allowed : Request → Prop} (hreads : ∀ q : Request, q.isWrite = false → allowed q)
    (filter : FilterArgument) (sort : Option SortOrder) (fields : Option Selection) :
    (r.findBy filter sort fields).Asks allowed := by
  refine Asks.bind ?_ fun _ => Asks.ofExcept _
  refine Asks.bind_ofReported fun query _ => Asks.bind_ofReported fun keys _ => ?_
  refine Asks.bind_ofReported fun projection _ => Asks.bind (Asks.during _ (Asks.bind_opened ?_)) fun records => ?_
  · refine Asks.bind (Asks.bind_request (hreads _ rfl) fun _ => ?_) fun _ => Asks.request (hreads _ rfl)
    split
    · exact Asks.request (hreads _ rfl)
    · exact trivial
  · exact Asks.bind_ofExcept fun _ _ => trivial

/-- What adding entities together writes stores what the name leads to in each of them. -/
theorem asks_addAll {items : Value} (hidentity : r.mapping.identityField = .ok field)
    (hitems : items.elements = .ok entities)
    (hwrites : ∀ e ∈ entities, ∀ v, e.attained? name = some v → r.Writes field storage e v.kept) :
    (r.addAll items).Asks (Request.StoresAll name field storage entities) := by
  refine Asks.bind_ofExcept fun items' hitems' => Asks.bind_ofExcept fun _ _ => ?_
  obtain rfl := Except.ok.inj (hitems.symm.trans hitems')
  split
  · exact trivial
  · refine Asks.bind_ofExcept fun field' hfield => ?_
    obtain rfl := Except.ok.inj (hidentity.symm.trans hfield)
    refine Asks.bind_yields (asks_planAll field entities) (yields_planAll_stores hwrites) fun plans hplans => ?_
    refine Asks.bind (asks_writeAll hplans) fun _ => Asks.bind_ofReported fun f _ => asks_findBy ?_ _ _ _
    intro q hq
    cases q with
    | bulkWrite | insertMany => exact nomatch hq
    | _ => exact trivial

end

/-- Wherever a logical name leads to a value in an entity, all that a repository writes of the entity stores it under
the storage name, as the name is not that of a generated identity. There are two exceptions. Of a document with fields
null is stored. And among others, nothing but an identifier is written into the native field. -/
theorem attained_written (hvalid : r.mapping.validate = .ok ()) (hstrategies : r.strategies = .standard)
    (hname : Dictionary.get? name r.mapping.fields = some storage)
    (hidentity : r.mapping.generatesIds = true → name ≠ r.mapping.identity) (engine : Engine σ) (s : Session σ) :
    ∃ field, r.mapping.identityField = .ok field ∧
      (∀ entity v, entity.IsNamedEntity → entity.attained? name = some v →
        (∃ document d, r.storedDocument entity = .ok document ∧ expandFields document = .ok d ∧
          d.stored? storage = some v.kept) ∧
        ∀ q ∈ ((r.add entity).run engine s).requests, q.Stores field storage v.kept) ∧
      ∀ items entities, items.elements = .ok entities → (∀ e ∈ entities, e.IsNamedEntity) →
        ∀ q ∈ ((r.addAll items).run engine s).requests, q.StoresAll name field storage entities := by
  obtain ⟨field, h⟩ := Mapping.isConsistent_of_validate hvalid
  have hwrites {entity v : Value} (hentity : entity.IsNamedEntity) (hv : entity.attained? name = some v) :
      r.Writes field storage entity v.kept := by
    obtain ⟨flat, hflat, hvalue⟩ := hentity.exists_flat hv
    exact hvalue ▸ writes h hstrategies hname hidentity hflat
  refine ⟨field, h.identityField_eq, fun entity v hentity hv => ⟨?_, ?_⟩, fun items entities hitems hentities => ?_⟩
  · obtain ⟨flat, hflat, _⟩ := hentity.exists_flat hv
    obtain ⟨document, d, hdocument, hd, _⟩ := storedDocument_expands hvalid hstrategies hflat
    exact ⟨document, d, hdocument, hd, (hwrites hentity hv).expanded document d hdocument hd⟩
  · exact (asks_add (hwrites hentity hv)).requests s
  · have hall : ∀ e ∈ entities, ∀ v, e.attained? name = some v → r.Writes field storage e v.kept :=
      fun e he v hv => hwrites (hentities e he) hv
    exact (asks_addAll h.identityField_eq hitems hall).requests s

/-- Residents, of whom both the home and its city are stored. -/
def residents : Mapping :=
  ⟨"residents", [("number", "number"), ("home", "home"), ("home.city", "city")], "number", false⟩

def census : Repository Unit := ⟨"census", residents, none, .standard⟩

def resident : Value :=
  .record .data [("number", .int 7), ("home", .plain [(.text "city", .text "Oslo")])] (.byAttribute "number")

theorem isNamedEntity_resident : resident.IsNamedEntity := by
  constructor
  · exact RecordKind.noConfusion
  · intro w hw
    obtain rfl := Except.ok.inj hw
    have hhome : (Value.plain (named [("city", .text "Oslo")])).IsNamed :=
      .fields (by decide +kernel) (by decide +kernel) (List.forall_mem_singleton.mpr (.leaf trivial))
    exact @Value.IsNamed.fields [("number", .int 7), ("home", .plain [(.text "city", .text "Oslo")])]
      (by decide +kernel) (by decide +kernel)
      (List.forall_mem_cons.mpr ⟨.leaf trivial, List.forall_mem_singleton.mpr hhome⟩)

/-- The city of a resident is stored, and the home that it is a part of is not. -/
theorem attained_written_resident : ∃ document d, census.storedDocument resident = .ok document ∧
    expandFields document = .ok d ∧ d.stored? "city" = some (.text "Oslo") ∧ d.stored? "home" = some .null := by
  have hvalid : census.mapping.validate = .ok () := by rfl
  have hgiven : ∀ name, census.mapping.generatesIds = true → name ≠ census.mapping.identity :=
    fun _ hgenerates => nomatch hgenerates
  have hstored {name storage : String} {v : Value} (hname : Dictionary.get? name residents.fields = some storage)
      (hv : resident.attained? name = some v) : ∃ document d, census.storedDocument resident = .ok document ∧
        expandFields document = .ok d ∧ d.stored? storage = some v.kept := by
    obtain ⟨_, _, hadded, _⟩ := attained_written (r := census) hvalid rfl hname (hgiven name) scriptedEngine
      ⟨.start [] 0, false⟩
    exact (hadded resident v isNamedEntity_resident hv).1
  have hcityPath : Path.ofText "home.city" = ["home", "city"] := by decide +kernel
  have hhomePath : Path.ofText "home" = ["home"] := by decide +kernel
  have hcity : resident.attained? "home.city" = some (.text "Oslo") := by
    rw [Value.attained?, hcityPath]
    rfl
  have hhome : resident.attained? "home" = some (.plain [(.text "city", .text "Oslo")]) := by
    rw [Value.attained?, hhomePath]
    rfl
  obtain ⟨document, d, hdocument, hd, hcityStored⟩ := hstored rfl hcity
  obtain ⟨document', d', hdocument', hd', hhomeStored⟩ := hstored rfl hhome
  obtain rfl := Except.ok.inj (hdocument.symm.trans hdocument')
  obtain rfl := Except.ok.inj (hd.symm.trans hd')
  exact ⟨document, d, hdocument, hd, hcityStored, hhomeStored⟩

end Repository

end EntityStore

import EntityStore.Document.Expand
import EntityStore.Query.Basic
import EntityStore.Repository.Reading

namespace EntityStore

namespace Mapping

/-- The stored fields of an entity that was flattened; what the entity lacks is null. -/
def storedFields (m : Mapping) (flat : Value) : Except Failure Document :=
  m.fields.mapM fun f => do
    let v ← flat.entry f.1 none
    pure (.text f.2, v)

/-- The native field where the engine generates it: left out as long as it is to be given, and
a native identifier if it denotes one. -/
def withNativeIdentity (m : Mapping) (document : Document) : Document :=
  if m.generatesIds then
    let id := (Dictionary.get? (.text nativeField) document).getD .null
    if id.isNewIdentity then Dictionary.erase (.text nativeField) document
    else
      match ObjectId.ofValue? id with
      | some o => Dictionary.insert (.text nativeField) (.objectId o) document
      | none => document
  else document

/-- The document that stores an entity, with dotted names. -/
def storedDocument (m : Mapping) (flat : Value) : Except Failure Document := do
  let fields ← m.storedFields flat
  pure (m.withNativeIdentity fields)

/-- The fields of a document that an update can change: all but the identity and the native field. -/
def updatable (identityField : String) (document : Document) : Document :=
  document.filter fun f => !(f.1 == .text identityField) && !(f.1 == .text nativeField)

end Mapping

/-- The document of an update that sets fields. -/
def settingFields (fields : Document) : Document := [(.text "$set", .plain fields)]

namespace Repository

variable {α : Type}

open Program (ofExcept ofReported record request during)

def storedDocument (r : Repository α) (entity : Value) : Except Failure Document := do
  let flat ← r.strategies.serialize entity
  r.mapping.storedDocument flat

/-- The update that gives a stored entity the fields of a document. -/
def updateOf (r : Repository α) (document : Document) : Except Failure Document := do
  let field ← r.mapping.identityField
  pure (settingFields (Mapping.updatable field document))

/-- Updates the stored document that a query finds. -/
def updateRecord (r : Repository α) (entity : Value) (query : Query) (document : Document) :
    Program (Option Value) := do
  let update ← ofExcept (r.updateOf document)
  let stored ← request (.findOneAndUpdate query.document (.plain update))
  let shown ← ofExcept entity.display
  record .info s!"Updated entity '{shown}' in '{r.mapping.collection}'."
  pure stored

/-- Inserts a document and reads it back. -/
def insertRecord (r : Repository α) (entity : Value) (document : Document) :
    Program (Option Value) := do
  let expanded ← ofExcept (expandFields document)
  let id ← request (.insertOne expanded)
  let stored ← request (.findOne (.single Mapping.nativeField id) none)
  let shown ← ofExcept entity.display
  let shownId ← ofExcept id.display
  record .info s!"Inserted entity '{shown}' into '{r.mapping.collection}' (_id: {shownId})."
  pure stored

/-- Stores an entity and yields its document. An entity that has its identity still to be given is
not looked for. -/
def addRecord (r : Repository α) (entity : Value) : Program (Option Value) := do
  ofExcept (requireIdentity entity)
  let document ← ofExcept (r.storedDocument entity)
  let query ← ofExcept (identityQuery r.mapping entity)
  during (doing "adding entity" entity) do
    r.opened
    let id ← ofExcept entity.id
    let existing ←
      if id.isNewIdentity then pure none
      else request (.findOne query.document (some nativeFieldOnly))
    if existing.isSome then r.updateRecord entity query document
    else r.insertRecord entity document

/-- Inserts an entity, or updates it if its identity is stored already. -/
def add (r : Repository α) (entity : Value) : Program (Option (Found α)) := do
  let stored ← r.addRecord entity
  ofExcept (r.restoredOption stored)

/-- How an entity among several is written: inserted under a fresh identifier, or updated under the
identity that its document holds. -/
inductive PlannedWrite where
  | insert (id : ObjectId) (expanded : Document)
  | upsert (field : String) (id : Value) (document update : Document)

namespace PlannedWrite

def bulkWrite : PlannedWrite → BulkWrite
  | .insert _ expanded => .insert expanded
  | .upsert field id _ update => .upsert [(.text field, id)] update

/-- The identifier of an entity that is inserted. -/
def freshId? : PlannedWrite → Option Value
  | .insert id _ => some (.objectId id)
  | .upsert _ _ _ _ => none

/-- The identity of an entity that has one. -/
def knownId? : PlannedWrite → Option Value
  | .insert _ _ => none
  | .upsert _ id _ _ => some id

/-- The document of an entity that has an identity. -/
def knownDocument? : PlannedWrite → Option Document
  | .insert _ _ => none
  | .upsert _ _ document _ => some document

end PlannedWrite

def plan (r : Repository α) (field : String) (entity : Value) : Program PlannedWrite := do
  let document ← ofExcept (r.storedDocument entity)
  let id ← ofExcept entity.id
  if id.isNewIdentity then
    let fresh ← Program.newId
    let document := Dictionary.insert (.text Mapping.nativeField) (.objectId fresh) document
    let expanded ← ofExcept (expandFields document)
    pure (.insert fresh expanded)
  else
    match Dictionary.get? (.text field) document with
    | none => .fail (.missingKey (Quoted.text field))
    | some stored => do
      let update ← ofExcept (r.updateOf document)
      pure (.upsert field stored document update)

/-- Plans how entities are written, one after the other. -/
def planAll (r : Repository α) (field : String) : List Value → Program (List PlannedWrite)
  | [] => pure []
  | entity :: rest => do
    let first ← r.plan field entity
    let others ← r.planAll field rest
    pure (first :: others)

/-- Inserts the documents of entities that no update found. -/
def insertKnown (documents : List Document) : Program Unit := do
  record .warning
    s!"Bulk write matched no identified entity; inserting {documents.length} of them instead."
  let expanded ← ofExcept (documents.mapM expandFields)
  request (.insertMany expanded)

/-- Carries out planned writes. If there are entities with an identity and not one of them was found
or inserted, they are inserted by themselves. -/
def writeAll (r : Repository α) (plans : List PlannedWrite) : Program Unit :=
  during (.ok s!"adding {plans.length} entities") do
    r.opened
    let counts ← request (.bulkWrite (plans.map (·.bulkWrite)) false)
    let inserted ← ofExcept counts.inserted.display
    let matched ← ofExcept counts.matched.display
    let upserted ← ofExcept counts.upserted.display
    record .info (s!"Bulk write on '{r.mapping.collection}': {inserted} inserted, "
      ++ s!"{matched} matched, {upserted} upserted.")
    let known := plans.filterMap (·.knownDocument?)
    if !known.isEmpty && counts.matched == .int 0 && counts.upserted == .int 0 then insertKnown known

/-- Adds the test for being among some identities to a filter, if there are any. -/
def orAmong (field : String) (ids : List Value) (f : Filter) : Reported Filter :=
  if ids.isEmpty then pure f
  else f.addValues .should (.membership true) (.text field) (.list ids) .null

/-- The filter for the entities that were written. -/
def writtenFilter (r : Repository α) (plans : List PlannedWrite) : Reported Filter := do
  let f ← orAmong Mapping.nativeField (plans.filterMap (·.freshId?)) Filter.empty
  orAmong r.mapping.identity (plans.filterMap (·.knownId?)) f

/-- Inserts or updates entities in one bulk and finds what is stored of them. -/
def addAll (r : Repository α) (entities : Value) : Program (List (Found α)) := do
  let items ← ofExcept entities.elements
  ofExcept (items.forM requireIdentity)
  if items.isEmpty then pure []
  else
    let field ← ofExcept r.mapping.identityField
    let plans ← r.planAll field items
    r.writeAll plans
    let filter ← ofReported (r.writtenFilter plans)
    r.findBy (.filter filter) none none

/-- Removes the entity of an identity, if there is one. -/
def remove (r : Repository α) (id : Value) : Program Unit := do
  ofExcept (requireIdentity id)
  let query ← ofExcept (identityQuery r.mapping id)
  let n ← during (doing "removing entity" id) do
    r.opened
    request (.deleteOne query.document)
  let count ← ofExcept n.display
  let shown ← ofExcept id.display
  record .info s!"Deleted {count} document(s) for entity '{shown}' from '{r.mapping.collection}'."

def dropCollection (r : Repository α) : Program Unit := do
  during (.ok "dropping collection") do
    r.opened
    request .drop
  record .info s!"Dropped collection '{r.mapping.collection}'."

/-- Removes the entities that a filter selects; without a filter the whole collection. -/
def removeAll (r : Repository α) (filter : FilterArgument) : Program Unit :=
  match filter with
  | .absent => r.dropCollection
  | _ => do
    let query ← ofReported (r.strategies.filterQuery filter r.mapping)
    let n ← during (.ok "removing entities") do
      r.opened
      request (.deleteMany query)
    let count ← ofExcept n.display
    record .info s!"Deleted {count} document(s) from '{r.mapping.collection}'."

/-- Runs a program as one operation. What it wrote before it failed stays written. -/
def transactional {β : Type} (p : Program β) : Program β :=
  Program.recordingFailure
    (fun e => .ok (Program.failureMessage "Transactional operation failed" e)) p

end Repository

end EntityStore

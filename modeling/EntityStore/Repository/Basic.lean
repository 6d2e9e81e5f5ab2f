import EntityStore.Document.Flatten
import EntityStore.Document.Normalize
import EntityStore.Engine.Program
import EntityStore.Mapping.Validation
import EntityStore.Query.OfFilter
import EntityStore.Selection
import EntityStore.SortOrder

namespace EntityStore

/-- How a repository turns entities into flat documents, and filters, sort orders and selections into
what the engine takes. A strategy may yield any value; what it is good for shows when it is used. -/
structure Strategies where
  serialize : Value → Except Failure Value
  filterQuery : FilterArgument → Mapping → Reported Value
  sortKeys : Option SortOrder → Mapping → Reported Value
  projection : Option Selection → Mapping → Reported Value

namespace Strategies

/-- The document of a selection, null if there is none. -/
def selectionDocument (fields : Option Selection) (m : Mapping) : Reported Value := do
  let document ← projectionOf fields m
  pure (document.elim .null Value.plain)

/-- The keys of a sort order as the engine takes them. -/
def sortKeysValue (sort : Option SortOrder) (m : Mapping) : Reported Value := do
  let keys ← sortKeysOf sort m
  pure keys.value

/-- The flat document of an entity. -/
def flatDocument (entity : Value) : Except Failure Value := do
  let flat ← flatten entity
  pure (.plain flat)

/-- The strategies of a repository that is given none. -/
def standard : Strategies :=
  ⟨flatDocument, fun filter m => queryOf filter m, sortKeysValue, selectionDocument⟩

end Strategies

/-- A repository of entities of one kind. It makes entities from documents if it knows how to, and
yields plain documents if not. -/
structure Repository (α : Type) where
  database : String
  mapping : Mapping
  hydrate : Option (Value → Except Failure α)
  strategies : Strategies

/-- What a repository yields: an entity, or a plain value. -/
inductive Found (α : Type) where
  | entity (a : α)
  | plain (v : Value)

namespace Repository

variable {α : Type}

/-- A repository for a mapping, which has to be consistent. -/
def ofMapping (database : String) (argument : MappingArgument)
    (hydrate : Option (Value → Except Failure α)) (strategies : Strategies) :
    Reported (Repository α) := do
  let m ← argument.validated
  Reported.note .info
    s!"Repository instance created for collection '{m.collection}' (db: '{database}')."
  pure ⟨database, m, hydrate, strategies⟩

/-- Makes sure that the collection is open. -/
def opened (r : Repository α) : Program Unit := Program.opened r.database r.mapping.collection

/-- What a stored document stands for. -/
def restored (r : Repository α) (record : Value) : Except Failure (Found α) :=
  match r.hydrate with
  | none => .ok (.plain record.normalized)
  | some make => do
    let a ← make record.normalized
    pure (.entity a)

/-- What a value of a field stands for; only documents can be entities. -/
def restoredValue (r : Repository α) (v : Value) : Except Failure (Found α) :=
  if v.isDocument then r.restored v else .ok (.plain v.normalized)

/-- What a document stands for that may be missing. -/
def restoredOption (r : Repository α) : Option Value → Except Failure (Option (Found α))
  | none => .ok none
  | some record => do
    let found ← r.restored record
    pure (some found)

/-- Refuses what tells no identity. -/
def requireIdentity (v : Value) : Except Failure Unit :=
  if v.isIdentity then .ok () else .error (.notIdentity v.typeName)

/-- Tells what is done with an entity. -/
def doing (activity : String) (entity : Value) : Except Failure String := do
  let shown ← entity.display
  pure s!"{activity} '{shown}'"

/-- The selection of nothing but the native field. -/
def nativeFieldOnly : Value := .single Mapping.nativeField (.int 1)

end Repository

end EntityStore

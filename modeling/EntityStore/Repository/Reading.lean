import EntityStore.Paging.Page
import EntityStore.Repository.Basic
import EntityStore.Value.Item
import EntityStore.Value.Order

namespace EntityStore

namespace Repository

variable {α : Type}

open Program (ofExcept ofReported record request during)

def findRecord (r : Repository α) (id : Value) (fields : Option Selection) :
    Program (Option Value) := do
  ofExcept (requireIdentity id)
  let query ← ofExcept (identityQuery r.mapping id)
  let projection ← ofReported (r.strategies.projection fields r.mapping)
  let shown ← ofExcept id.display
  let sought ← ofExcept query.document.spelled
  record .debug s!"Finding entity '{shown}' with query {sought}"
  let found ← during (.ok s!"finding entity '{shown}'") do
    r.opened
    request (.findOne query.document (some projection))
  if found.isNone then
    record .debug s!"Entity '{shown}' not found in '{r.mapping.collection}'."
  pure found

def find (r : Repository α) (id : Value) (fields : Option Selection) :
    Program (Option (Found α)) := do
  let found ← r.findRecord id fields
  ofExcept (r.restoredOption found)

/-- Opens a cursor that yields documents in a given order. -/
def openCursor (query projection keys : Value) : Program Unit := do
  request (.find query projection)
  if keys.isTruthy then request (.sort keys)

def findRecords (r : Repository α) (filter : FilterArgument) (sort : Option SortOrder)
    (fields : Option Selection) : Program (List Value) := do
  let query ← ofReported (r.strategies.filterQuery filter r.mapping)
  let keys ← ofReported (r.strategies.sortKeys sort r.mapping)
  let projection ← ofReported (r.strategies.projection fields r.mapping)
  let records ← during (.ok "finding entities") do
    r.opened
    openCursor query projection keys
    request .fetch
  let shown ← ofExcept query.display
  record .debug s!"Found {records.length} document(s) for query {shown}"
  pure records

def findBy (r : Repository α) (filter : FilterArgument) (sort : Option SortOrder)
    (fields : Option Selection) : Program (List (Found α)) := do
  let records ← r.findRecords filter sort fields
  ofExcept (records.mapM r.restored)

/-- The storage name of the one field of which distinct values are asked for. -/
def distinctField (r : Repository α) (fields : Option Selection) : Except Failure String :=
  match (fields.map (·.names)).getD [] with
  | [] => .error .noDistinctField
  | [name] => r.mapping.storageField name
  | names => do
    let shown ← (Value.list names).spelled
    .error (.severalDistinctFields shown)

/-- The direction in which the values of a field are sorted by some keys: that of the first key, if it is
for the field. -/
def directionFor (field : String) (keys : Value) : Except Failure (Option Direction) :=
  if keys.isTruthy then do
    let first ← keys.item (.int 0)
    let name ← first.item (.int 0)
    if name == .text field then do
      let sign ← first.item (.int 1)
      pure (some (if sign == .int Direction.descending.sign then .descending else .ascending))
    else pure none
  else .ok none

/-- Distinct values in the order of some keys, and how many they are. -/
def inOrder (field : String) (keys values : Value) : Except Failure (Nat × List Value) := do
  match ← directionFor field keys with
  | some d =>
    let items ← values.elements
    let items ← Value.sorted d items
    pure (items.length, items)
  | none =>
    let n ← values.size
    let items ← values.elements
    pure (n, items)

/-- The distinct values of a field in the stored documents that a filter selects. -/
def distinctValues (r : Repository α) (fields : Option Selection) (filter : FilterArgument)
    (sort : Option SortOrder) : Program (List Value) := do
  let field ← ofExcept (r.distinctField fields)
  let query ← ofReported (r.strategies.filterQuery filter r.mapping)
  let keys ← ofReported (r.strategies.sortKeys sort r.mapping)
  let values ← during (.ok s!"finding distinct values of '{field}'") do
    r.opened
    request (.distinct field query)
  let (n, items) ← ofExcept (inOrder field keys values)
  record .debug s!"Found {n} distinct value(s) of '{field}'"
  pure items

def findByDistinct (r : Repository α) (fields : Option Selection) (filter : FilterArgument)
    (sort : Option SortOrder) : Program (List (Found α)) := do
  let values ← r.distinctValues fields filter sort
  ofExcept (values.mapM r.restoredValue)

/-- How many stored documents a request is about, and those of its page. -/
def pageRecords (r : Repository α) (p : PageRequest) : Program (Value × List Value) := do
  let query ← ofReported (r.strategies.filterQuery p.filter r.mapping)
  let keys ← ofReported (r.strategies.sortKeys p.sort r.mapping)
  let projection ← ofReported (r.strategies.projection p.fields r.mapping)
  let shown ← ofExcept query.display
  let skip ← ofExcept (IntegerText.shown p.offset)
  let limit ← ofExcept (IntegerText.shown p.limit)
  record .debug s!"Paging query {shown}: skip={skip}, limit={limit}"
  during (.ok "paging entities") do
    r.opened
    let total ← request (.count query)
    openCursor query projection keys
    request (.skip p.offset)
    request (.limit p.limit)
    let records ← request .fetch
    pure (total, records)

/-- The place that a bound of a slice means in a list of some length. A negative bound is counted from the end. -/
def boundOf (length : Nat) (n : Int) : Nat := if n < 0 then (n + length).toNat else n.toNat

/-- The elements of a list from one place up to another. -/
def slice {β : Type} (first last : Int) (xs : List β) : List β :=
  (xs.take (boundOf xs.length last)).drop (boundOf xs.length first)

/-- The elements of a list that belong on a page. -/
def window {β : Type} (p : PageRequest) (xs : List β) : List β := slice p.offset (p.offset + p.limit) xs

/-- The page of distinct values that is requested. -/
def findDistinctPage (r : Repository α) (fields : Selection) (p : PageRequest) :
    Program (Page (Found α)) := do
  let values ← r.findByDistinct (some fields) p.filter p.sort
  ofExcept (Page.ofRequest (window p values) (.int values.length) p)

/-- The page of entities that is requested. -/
def findPage (r : Repository α) (p : PageRequest) : Program (Page (Found α)) := do
  let (total, records) ← r.pageRecords p
  let content ← ofExcept (records.mapM r.restored)
  ofExcept (Page.ofRequest content total p)

/-- One page of entities or of distinct values; all entities on one page if none is requested. -/
def findAll (r : Repository α) (request : Option PageRequest) : Program (Page (Found α)) :=
  match request with
  | none => do
    let content ← r.findBy .absent none none
    pure (Page.single content (.int content.length))
  | some p =>
    match p.distinct with
    | none => r.findPage p
    | some fields => if fields.isEmpty then r.findPage p else r.findDistinctPage fields p

def count (r : Repository α) (filter : FilterArgument) : Program Int := do
  let query ← ofReported (r.strategies.filterQuery filter r.mapping)
  let shown ← ofExcept query.display
  record .debug s!"MongoDB count filter: {shown}"
  let n ← during (.ok "counting entities") do
    r.opened
    request (.count query)
  let shown ← ofExcept n.display
  record .info s!"Counted {shown} document(s) in '{r.mapping.collection}'."
  ofExcept n.integer

def contains (r : Repository α) (id : Value) : Program Bool := do
  ofExcept (requireIdentity id)
  let query ← ofExcept (identityQuery r.mapping id)
  let found ← during (doing "checking existence of" id) do
    r.opened
    request (.findOne query.document (some nativeFieldOnly))
  pure found.isSome

end Repository

end EntityStore

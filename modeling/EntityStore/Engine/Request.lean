import EntityStore.Value.Basic

namespace EntityStore

/-- One write among several: a new document, or an update of the document that a query finds, which is
inserted if there is none. -/
inductive BulkWrite where
  | insert (document : Document)
  | upsert (query update : Document)

/-- How many documents a bulk of writes inserted, found, and inserted for want of one to update, as the
engine tells it. -/
structure BulkCounts where
  inserted : Value
  matched : Value
  upserted : Value

inductive Request where
  | findOne (query : Value) (projection : Option Value)
  | find (query projection : Value)
  | sort (keys : Value)
  | skip (count : Int)
  | limit (count : Int)
  | fetch
  | count (query : Value)
  | distinct (field : String) (query : Value)
  | findOneAndUpdate (query update : Value)
  | insertOne (document : Document)
  | insertMany (documents : List Document)
  | bulkWrite (writes : List BulkWrite) (ordered : Bool)
  | deleteOne (query : Value)
  | deleteMany (query : Value)
  | drop

namespace Request

abbrev Reply : Request → Type
  | .findOne _ _ => Option Value
  | .find _ _ => Unit
  | .sort _ => Unit
  | .skip _ => Unit
  | .limit _ => Unit
  | .fetch => List Value
  | .count _ => Value
  | .distinct _ _ => Value
  | .findOneAndUpdate _ _ => Option Value
  | .insertOne _ => Value
  | .insertMany _ => Unit
  | .bulkWrite _ _ => BulkCounts
  | .deleteOne _ => Value
  | .deleteMany _ => Value
  | .drop => Unit

def isWrite : Request → Bool
  | .findOneAndUpdate _ _ | .insertOne _ | .insertMany _ | .bulkWrite _ _ | .deleteOne _
  | .deleteMany _ | .drop => true
  | _ => false

end Request

end EntityStore

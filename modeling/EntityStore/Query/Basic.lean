import EntityStore.Filter.Test
import EntityStore.Mapping.Basic

namespace EntityStore

inductive Condition where
  | literally (v : Value)
  | equality (holds : Bool) (v : Value)
  | comparison (c : Comparison) (v : Value)
  | between (low high : Value)
  | membership (holds : Bool) (items : List Value)
  | pattern (holds : Bool) (source : String)
  | emptyArray
  | filledArray

/-- All documents; those of which a field fulfils a condition; those of all of some queries; those of
any of them. -/
inductive Query where
  | everything
  | field (name : String) (c : Condition)
  | all (queries : List Query)
  | any (queries : List Query)

/-- The operator that the engine takes for a comparison. -/
def Comparison.operator : Comparison → String
  | .greater => "$gt"
  | .greaterOrEqual => "$gte"
  | .less => "$lt"
  | .lessOrEqual => "$lte"

namespace Condition

/-- The document of operators that states a condition. A pattern ignores case. -/
def document : Condition → Value
  | .literally v => v
  | .equality true v => .single "$eq" v
  | .equality false v => .single "$ne" v
  | .comparison c v => .single c.operator v
  | .between low high => .plain [(.text "$gte", low), (.text "$lte", high)]
  | .membership true items => .single "$in" (.list items)
  | .membership false items => .single "$nin" (.list items)
  | .pattern true source => .plain [(.text "$regex", .text source), (.text "$options", .text "i")]
  | .pattern false source => .single "$not" (.pattern ⟨source, .caseless⟩)
  | .emptyArray => .plain [(.text "$exists", .bool true), (.text "$size", .int 0)]
  | .filledArray =>
    .plain [(.text "$type", .text "array"), (.text "$not", .single "$size" (.int 0))]

def isPattern : Condition → Bool
  | .pattern _ _ => true
  | _ => false

end Condition

namespace Query

mutual

/-- The document in which the engine takes a query. -/
def document : Query → Value
  | .everything => .plain []
  | .field name c => .single name c.document
  | .all queries => .single "$and" (.list (documents queries))
  | .any queries => .single "$or" (.list (documents queries))
termination_by structural q => q

def documents : List Query → List Value
  | [] => []
  | q :: qs => document q :: documents qs
termination_by structural qs => qs

end

mutual

/-- Whether a query is true of a document of which it is known which conditions its fields fulfil. -/
def holds (fulfils : String → Condition → Bool) : Query → Bool
  | .everything => true
  | .field name c => fulfils name c
  | .all queries => allHold fulfils queries
  | .any queries => anyHolds fulfils queries
termination_by structural q => q

def allHold (fulfils : String → Condition → Bool) : List Query → Bool
  | [] => true
  | q :: qs => holds fulfils q && allHold fulfils qs
termination_by structural qs => qs

def anyHolds (fulfils : String → Condition → Bool) : List Query → Bool
  | [] => false
  | q :: qs => holds fulfils q || anyHolds fulfils qs
termination_by structural qs => qs

end

end Query

/-- The native identifier that a value is or denotes. -/
def ObjectId.ofValue? : Value → Option ObjectId
  | .objectId o => some o
  | .text s => ObjectId.ofText? s
  | .bytes bs => ObjectId.ofBytes? bs
  | _ => none

/-- The query for the document of an identity. -/
def identityQuery (m : MappingArgument) (entity : Value) : Except Failure Query := do
  let id ← entity.id
  let field ← m.identityField
  match ObjectId.ofValue? id with
  | none => pure (.field field (.literally id))
  | some o =>
    let native := Query.field Mapping.nativeField (.literally (.objectId o))
    if field = Mapping.nativeField then pure native
    else pure (.any [native, .field field (.literally id)])

end EntityStore

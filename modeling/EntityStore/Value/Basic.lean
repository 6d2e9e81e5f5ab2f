import EntityStore.Dictionary
import EntityStore.Direction
import EntityStore.Number.Binary64
import EntityStore.ObjectId
import EntityStore.Text.Expression.Matching
import EntityStore.Time.Timestamp

namespace EntityStore

/-- Plain documents, documents whose order of fields matters, and views that cannot be written. -/
inductive DocumentKind where
  | plain
  | ordered
  | readOnly
  deriving DecidableEq, Repr

/-- Models and data records are converted to documents by themselves; objects only as entities. -/
inductive RecordKind where
  | model
  | data
  | object
  deriving DecidableEq, Repr

/-- The name of the type of a kind of records. -/
def RecordKind.typeName : RecordKind → String
  | .model => "Model"
  | .data => "Data"
  | .object => "Plain"

/-- How a record tells its identity: not at all, by a fixed value, or by one of its attributes. -/
inductive Identification (α : Type) where
  | absent
  | fixed (id : α)
  | byAttribute (name : String)
  deriving DecidableEq, Repr

/-- A value. Sets hold their elements in the order in which they are gone through. A thing is an object
without attributes, and a record type stands for a type of records itself. -/
inductive Value where
  | null
  | bool (b : Bool)
  | int (n : Int)
  | float (x : Binary64)
  | text (s : String)
  | bytes (bs : List UInt8)
  | list (items : List Value)
  | tuple (items : List Value)
  | set (items : List Value)
  | frozenSet (items : List Value)
  | document (kind : DocumentKind) (fields : List (Value × Value))
  | timestamp (t : Timestamp)
  | date (d : Date)
  | objectId (o : ObjectId)
  | decimal (s : String)
  | pattern (p : Pattern)
  | url (s : String)
  | direction (d : Direction)
  | entityId (id : Value)
  | record (kind : RecordKind) (attributes : List (String × Value)) (identity : Identification Value)
  | thing
  | recordType (name : String)
  deriving Inhabited

/-- The fields of a document, in order. -/
abbrev Document := Dictionary Value Value

namespace Value

/-- The plain document with these fields. -/
abbrev plain (fields : Document) : Value := .document .plain fields

/-- The plain document with one field of a given name. -/
abbrev single (name : String) (v : Value) : Value := plain [(.text name, v)]

def isWritableDocument : Value → Bool
  | .document .readOnly _ => false
  | .document _ _ => true
  | _ => false

def isDocument : Value → Bool
  | .document _ _ => true
  | _ => false

def typeName : Value → String
  | .null => "NoneType"
  | .bool _ => "bool"
  | .int _ => "int"
  | .float _ => "float"
  | .text _ => "str"
  | .bytes _ => "bytes"
  | .list _ => "list"
  | .tuple _ => "tuple"
  | .set _ => "set"
  | .frozenSet _ => "frozenset"
  | .document .plain _ => "dict"
  | .document .ordered _ => "SON"
  | .document .readOnly _ => "mappingproxy"
  | .timestamp _ => "datetime"
  | .date _ => "date"
  | .objectId _ => "ObjectId"
  | .decimal _ => "Decimal128"
  | .pattern _ => "Pattern"
  | .url _ => "AnyUrl"
  | .direction _ => "Order"
  | .entityId _ => "EntityId"
  | .record kind _ _ => kind.typeName
  | .thing => "Thing"
  | .recordType _ => "type"

/-- The name of the type with the module in front, where one belongs to the name. -/
def qualifiedTypeName : Value → String
  | .timestamp _ => "datetime.datetime"
  | .date _ => "datetime.date"
  | .pattern _ => "re.Pattern"
  | v => v.typeName

/-- How a value is named when it lacks an attribute. -/
def owner : Value → String
  | .recordType name => s!"type object '{name}'"
  | v => s!"'{v.qualifiedTypeName}' object"

/-- Empty containers, zeros, false and null count as absent. -/
def isTruthy : Value → Bool
  | .null => false
  | .bool b => b
  | .int n => n != 0
  | .float (.finite _ m _) => m != 0
  | .text s => s != ""
  | .bytes bs => !bs.isEmpty
  | .list items | .tuple items | .set items | .frozenSet items => !items.isEmpty
  | .document _ fields => !fields.isEmpty
  | _ => true

end Value

end EntityStore

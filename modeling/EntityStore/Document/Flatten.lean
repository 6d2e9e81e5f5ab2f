import EntityStore.Document.Prepare
import EntityStore.Value.Display

namespace EntityStore

namespace Flatten

mutual

/-- The leaves of a value at the end of some keys, each with all the keys that lead to it. -/
def leaves (keys : List Value) : Value → List (List Value × Value)
  | .document .plain fields =>
    if fields.isEmpty then [(keys, .document .plain fields)] else fieldLeaves keys fields
  | .document .ordered fields =>
    if fields.isEmpty then [(keys, .document .ordered fields)] else fieldLeaves keys fields
  | v => [(keys, v)]
termination_by structural v => v

def fieldLeaves (keys : List Value) : List (Value × Value) → List (List Value × Value)
  | [] => []
  | p :: fs => fieldLeavesOf keys p ++ fieldLeaves keys fs
termination_by structural fs => fs

def fieldLeavesOf (keys : List Value) : Value × Value → List (List Value × Value)
  | (k, v) => leaves (keys ++ [k]) v
termination_by structural p => p

end

/-- The name of a key below a path; nothing stands before a name at the top. -/
def joined (path : String) (key : Value) : Except Failure String := do
  let name ← key.display
  pure (if path = "" then name else path ++ "." ++ name)

/-- The dotted name of some keys. -/
def dottedName (keys : List Value) : Except Failure String := keys.foldlM joined ""

/-- The name under which an attribute is stored: underscores in front are left out. -/
def storedName (name : String) : String := String.ofList (name.toList.dropWhile (· == '_'))

/-- Attributes that begin with two underscores are private and not stored. -/
def isPrivate (name : String) : Bool := name.toList.take 2 == ['_', '_']

/-- The values of attributes, ready for storage under the names that are stored. -/
def preparedAttributes : List (String × Value) → Except Failure (List (Value × Value))
  | [] => .ok []
  | (name, v) :: rest => do
    let v ← v.prepared
    let rest ← preparedAttributes rest
    pure ((.text (storedName name), v) :: rest)

/-- The fields of an entity, ready for storage. Two attributes that are stored under one name are
one field, with the place of the first and the value of the second. -/
def fields (entity : Value) : Except Failure Document :=
  match entity with
  | .document .plain _ | .document .ordered _ | .record .data _ _ | .record .model _ _ => do
    match ← entity.prepared with
    | .document _ fields => pure fields
    | _ => pure []
  | .record .object attributes _ => do
    let entries ← preparedAttributes (attributes.filter fun a => !isPrivate a.1)
    pure (Dictionary.ofList entries)
  | .entityId id => do
    let id ← id.prepared
    pure [(.text "id", id)]
  | .direction d =>
    .ok [(.text "value_", .text d.code), (.text "name_", .text d.name),
      (.text "sort_order_", .int d.rank)]
  | .url _ => .error .noAttributes
  | .thing | .recordType _ => .ok []
  | _ => .error (.notSerializable entity.typeName)

def field (leaf : List Value × Value) : Except Failure (Value × Value) := do
  let name ← dottedName leaf.1
  pure (.text name, leaf.2)

end Flatten

/-- The entity as a document of one level; of several leaves under one name the last one counts. -/
def flatten (entity : Value) : Except Failure Document := do
  let fields ← Flatten.fields entity
  let leaves := fields.flatMap fun f => Flatten.leaves [f.1] f.2
  let entries ← leaves.mapM Flatten.field
  pure (Dictionary.ofList entries)

end EntityStore

import EntityStore.Document.Copy
import EntityStore.Path
import EntityStore.Value.Display

namespace EntityStore

/-- The keys that lead to a nested value. -/
abbrev KeyPath := List Value

namespace KeyPath

/-- All but the last key, which is that of the leaf. -/
def parents (keys : KeyPath) : KeyPath := keys.dropLast

def leaf (keys : KeyPath) : Value := keys.getLast?.getD .null

end KeyPath

/-- The names of a path as keys. -/
def Path.keys (p : Path) : KeyPath := p.map Value.text

namespace Expand

/-- Changes the document at the end of some keys below `node`. Documents that are missing on the way
are created; anything else on the way is a conflict. `name` is the dotted name that is being set. -/
def within (name : String) : List Value → (Document → Except Failure Document) → Document →
    Except Failure Document
  | [], change, node => change node
  | part :: rest, change, node =>
    match Dictionary.get? part node with
    | none => do
      let fields ← within name rest change []
      pure (Dictionary.insert part (.plain fields) node)
    | some (.document .readOnly _) => conflict name part
    | some (.document kind fields) => do
      let fields ← within name rest change fields
      pure (Dictionary.insert part (.document kind fields) node)
    | some _ => conflict name part
where
  conflict (name : String) (part : Value) : Except Failure Document := do
    let shown ← part.display
    .error (.pathThroughScalar name shown)

/-- A document that is set for the first time is copied. -/
def copied (v : Value) : Except Failure Value :=
  if v.isWritableDocument && v.holdsView then .error Value.viewRefusal else .ok v

/-- The fields of a document that can be written to. -/
def writable? : Value → Option (DocumentKind × Document)
  | .document .readOnly _ => none
  | .document kind fields => some (kind, fields)
  | _ => none

/-- Sets the last of some keys in the document that holds it. -/
def setLeaf (name : String) (leaf v : Value) (node : Document) : Except Failure Document :=
  match Dictionary.get? leaf node with
  | none => do
    let v ← copied v
    pure (Dictionary.insert leaf v node)
  | some old =>
    match writable? old, writable? v with
    | some (kind, fields), some (_, new) =>
      .ok (Dictionary.insert leaf (.document kind (Dictionary.insertMany fields new)) node)
    | _, _ => .error (.fieldSetTwice name)

def setAt (name : String) (keys : KeyPath) (v : Value) (root : Document) : Except Failure Document :=
  within name keys.parents (setLeaf name keys.leaf v) root

/-- The part of a name between two dots. What a group of a pattern holds is part of it as well, and
nothing if the group took no part. -/
def keyOf : Option String → Value
  | some s => .text s
  | none => .null

/-- The keys to which a key leads: the parts of a name between its dots, or the parts that a pattern
leaves of a dot. -/
def keysOf (key : Value) : Except Failure KeyPath :=
  match key with
  | .text name => .ok (Path.ofText name).keys
  | .pattern p => .ok ((p.split ".").map keyOf)
  | .bytes _ => .error .bytesInPath
  | k => do
    let split ← k.attributeNamed "split"
    let made ← split.called [.text "."]
    .error (.notUnpackable (split.madeTypeName made))

def setField (root : Document) (field : Value × Value) : Except Failure Document := do
  let keys ← keysOf field.1
  let name ← field.1.display
  setAt name keys field.2 root

def fieldsOf : Value → Except Failure Document
  | .document _ fields => .ok fields
  | v => do
    let items ← v.callAttribute "items" []
    .error (.notIterable items.qualifiedTypeName)

end Expand

/-- The fields with dotted names as nested documents. -/
def expandFields (fields : Document) : Except Failure Document :=
  fields.foldlM Expand.setField []

/-- The document with dotted names as nested documents. -/
def expand (v : Value) : Except Failure Document := do
  let fields ← Expand.fieldsOf v
  expandFields fields

end EntityStore

import EntityStore.Failure
import EntityStore.Value.Equality

namespace EntityStore

namespace Value

/-- The value if it can be a key. -/
def asKey (v : Value) : Except Failure Value :=
  match v.unhashable? with
  | some type => .error (.unhashable type)
  | none => .ok v

/-- The distinct values among some, each of which has to be able to be a key. -/
def setOf (vs : List Value) : Except Failure (List Value) := do
  let keys ← vs.mapM asKey
  pure (distinct keys)

/-- The document that results from setting fields one after the other, whose names have to be able to
be keys. -/
def documentOf (fields : List (Value × Value)) : Except Failure Document := do
  let fields ← fields.mapM fun f => do
    let key ← f.1.asKey
    pure (key, f.2)
  pure (Dictionary.ofList fields)

/-- The elements that going through a value yields: characters, bytes, items, the keys of a document,
or the names and values of a model. -/
def elements : Value → Except Failure (List Value)
  | .text s => .ok (s.toList.map fun c => .text c.toString)
  | .bytes bs => .ok (bs.map fun b => .int b.toNat)
  | .list items | .tuple items | .set items | .frozenSet items => .ok items
  | .document _ fields => .ok (Dictionary.keys fields)
  | .record .model attributes _ => .ok (attributes.map fun a => .tuple [.text a.1, a.2])
  | v => .error (.notIterable v.qualifiedTypeName)

/-- How many elements a value has; a model is no container and has no number of them. -/
def size : Value → Except Failure Nat
  | .record kind _ _ => .error (.notMeasurable (RecordKind.typeName kind))
  | v => match v.elements with
    | .ok items => .ok items.length
    | .error _ => .error (.notMeasurable v.qualifiedTypeName)

/-- The attributes of a record; other values have none that are read here. -/
def attributes : Value → Dictionary String Value
  | .record _ attributes _ => attributes
  | _ => []

/-- The attribute of a value under a name. -/
def attributeNamed (v : Value) (name : String) : Except Failure Value :=
  match Dictionary.get? name v.attributes with
  | some a => .ok a
  | none => .error (.missingAttribute v.owner name)

/-- What calling a value yields. Nothing but a type of records can be called: it makes a record of its
one attribute. -/
def called (args : List Value) : Value → Except Failure Value
  | .recordType name =>
    match args with
    | [] => .error (.missingArgument name)
    | [v] => .ok (.record .data [("x", v)] .absent)
    | _ => .error (.surplusArguments name (args.length + 1))
  | v => .error (.notCallable v.qualifiedTypeName)

/-- The name of the type of what calling a value makes. -/
def madeTypeName (callee made : Value) : String :=
  match callee with
  | .recordType name => name
  | _ => made.qualifiedTypeName

def callAttribute (v : Value) (name : String) (args : List Value) : Except Failure Value := do
  let a ← v.attributeNamed name
  a.called args

/-- The value under a name, as documents look it up; what is missing is the default, if there is one. -/
def entry (v : Value) (name : String) (default : Option Value) : Except Failure Value :=
  match v with
  | .document _ fields => .ok ((Dictionary.get? (.text name) fields).getD (default.getD .null))
  | v => v.callAttribute "get" (.text name :: default.toList)

/-- Whether a value counts as an identity: it tells one, or it has an attribute of that name. -/
def isIdentity : Value → Bool
  | .entityId _ => true
  | .record _ _ (.fixed _) | .record _ _ (.byAttribute _) => true
  | v => match Dictionary.get? "id" v.attributes with
    | some .null | none => false
    | some _ => true

/-- The identity that a value tells. An attribute of a record stands before its way of telling it. -/
def id (v : Value) : Except Failure Value :=
  match v with
  | .entityId id => .ok id
  | .record _ attributes identity =>
    match Dictionary.get? "id" attributes with
    | some a => a.called []
    | none => match identity with
      | .absent => v.attributeNamed "id"
      | .fixed id => .ok id
      | .byAttribute name => v.attributeNamed name
  | v => v.callAttribute "id" []

/-- An absent or empty identity is one still to be given. -/
def isNewIdentity : Value → Bool
  | .null => true
  | .text s => s == ""
  | _ => false

end Value

end EntityStore

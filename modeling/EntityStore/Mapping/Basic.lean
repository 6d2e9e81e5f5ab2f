import EntityStore.Value.Display

namespace EntityStore

/-- The collection that stores an entity, the storage name of each logical field, the logical field
that is the identity, and whether the engine gives new entities theirs. -/
structure Mapping where
  collection : String
  fields : Dictionary String String
  identity : String
  generatesIds : Bool
  deriving DecidableEq, Repr

namespace Mapping

/-- The field in which the engine keeps the native identifier of a document. -/
def nativeField : String := "_id"

/-- The storage name of a logical field. The native field is always its own storage name. -/
def storageField (m : Mapping) (name : Value) : Except Failure String :=
  if name == .text nativeField then .ok nativeField
  else do
    let _ ← name.asKey
    match name with
    | .text s =>
      match Dictionary.get? s m.fields with
      | some storage => .ok storage
      | none => .error (.unmappedField s m.collection)
    | _ => do
      let shown ← name.display
      .error (.unmappedField shown m.collection)

def identityField (m : Mapping) : Except Failure String :=
  match Dictionary.get? m.identity m.fields with
  | some storage => .ok storage
  | none => .error (.missingKey (Quoted.text m.identity))

def fieldsLiteral (m : Mapping) : String :=
  Value.documentLiteral .plain (m.fields.map fun f => (Quoted.text f.1, Quoted.text f.2))

end Mapping

/-- What stands where a mapping is expected. -/
inductive MappingArgument where
  | mapping (m : Mapping)
  | other (v : Value)

namespace MappingArgument

instance : Coe Mapping MappingArgument := ⟨.mapping⟩

/-- The failure of what is no mapping to tell its fields. -/
def refusal {α : Type} (v : Value) : Except Failure α := do
  let _ ← v.callAttribute "map" []
  .error (.notCallable v.qualifiedTypeName)

/-- The storage name of a logical field. The native field has it without a mapping. -/
def storageField (argument : MappingArgument) (name : Value) : Except Failure String :=
  match argument with
  | .mapping m => m.storageField name
  | .other v => if name == .text Mapping.nativeField then .ok Mapping.nativeField else refusal v

/-- The storage name of the identity. -/
def identityField : MappingArgument → Except Failure String
  | .mapping m => m.identityField
  | .other v => refusal v

end MappingArgument

end EntityStore

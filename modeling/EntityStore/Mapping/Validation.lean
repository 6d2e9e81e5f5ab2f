import EntityStore.Log
import EntityStore.Mapping.Basic
import EntityStore.Path

namespace EntityStore

namespace Mapping

def checkCollection (m : Mapping) : Except Failure Unit :=
  if m.collection = "" then .error .unnamedCollection else .ok ()

/-- Looks for a field whose storage name belongs to one before it. `seen` holds the storage names so
far, each with its logical field. -/
def checkShared : Dictionary String String → Dictionary String String → Except Failure Unit
  | _, [] => .ok ()
  | seen, (logical, storage) :: rest =>
    match Dictionary.get? storage seen with
    | some first => .error (.sharedStorage first logical storage)
    | none => checkShared (seen ++ [(storage, logical)]) rest

/-- The logical field of each storage name. -/
def logicalFields (m : Mapping) : Dictionary String String := m.fields.map fun f => (f.2, f.1)

/-- The nearest of the paths above a storage name that is a storage name itself, with its logical field. -/
def outerField? (owners : Dictionary String String) (storage : String) : Option (String × String) :=
  (Path.ofText storage).ancestors.findSome? fun p =>
    (Dictionary.get? p.text owners).map fun owner => (p.text, owner)

/-- Looks for a storage name inside another. -/
def checkNested (owners : Dictionary String String) : List String → Except Failure Unit
  | [] => .ok ()
  | storage :: rest =>
    match outerField? owners storage with
    | some (outer, owner) => .error (.nestedStorage storage outer owner)
    | none => checkNested owners rest

/-- Whether a mapping is consistent, and if not, the first reason why. -/
def validate (m : Mapping) : Except Failure Unit := do
  m.checkCollection
  match Dictionary.get? m.identity m.fields with
  | none => .error (.identityUnmapped m.identity m.collection)
  | some storage =>
    checkShared [] m.fields
    checkNested m.logicalFields (Dictionary.values m.fields)
    if m.generatesIds && storage != nativeField then .error (.identityElsewhere m.identity storage)

def validated (m : Mapping) : Reported Unit := do
  Reported.ofExcept m.validate
  Reported.note .debug s!"Mapping for collection '{m.collection}' validated: {m.fieldsLiteral}"

end Mapping

namespace MappingArgument

/-- The mapping, if it is one and consistent. -/
def validated : MappingArgument → Reported Mapping
  | .mapping m => do
    m.validated
    pure m
  | .other v => Reported.ofExcept (.error (.notMapping v.typeName))

end MappingArgument

end EntityStore

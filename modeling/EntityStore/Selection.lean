import EntityStore.Log
import EntityStore.Mapping.Basic

namespace EntityStore

/-- Fields, each once, in the order of first mention. The empty selection stands for all fields. -/
structure Selection where
  names : List Value

namespace Selection

def isEmpty (s : Selection) : Bool := s.names.isEmpty

/-- The fields that going through a value yields; a value that counts as absent selects none. -/
def ofValue (v : Value) : Except Failure Selection := do
  let names ← if v.isTruthy then v.elements else .ok []
  pure ⟨distinct names⟩

def spelled (s : Selection) : Except Failure String := do
  let names ← (Value.list s.names).spelled
  pure ("Fields(" ++ names ++ ")")

/-- The literal of a selection, which is empty if the selection cannot be spelled. -/
def literal (s : Selection) : String := s.spelled.toOption.getD ""

/-- The document that the engine takes for a selection; two fields that are stored in one place are one field of it. -/
def projection (m : MappingArgument) (s : Selection) : Except Failure Document := do
  let fields ← s.names.mapM m.storageField
  pure (Dictionary.ofList (fields.map fun field => (.text field, .int 1)))

end Selection

/-- The document of a selection, none if it is absent or empty and so stands for all fields. -/
def projectionOf (fields : Option Selection) (m : MappingArgument) : Reported (Option Document) :=
  match fields with
  | none => pure none
  | some s =>
    if s.isEmpty then pure none
    else do
      let document ← Reported.ofExcept (s.projection m)
      let shown ← Reported.ofExcept s.spelled
      let compiled ← Reported.ofExcept (Value.plain document).spelled
      Reported.note .debug s!"Compiled {shown} to MongoDB projection: {compiled}"
      pure (some document)

end EntityStore

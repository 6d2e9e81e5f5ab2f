import EntityStore.Value.Access
import EntityStore.Value.Literal

namespace EntityStore

namespace Value

/-- The text of a record that tells no identity: the attributes of a model, and of others their spelling. -/
def recordDisplay (kind : RecordKind) (attributes : List (String × Value)) : Except Failure String :=
  match kind with
  | .model => do
    let shown ← spelledAttributes attributes
    pure (String.intercalate " " (shown.map assignment))
  | _ => spelled (.record kind attributes .absent)

/-- The failure to show a record as an attribute that it lacks. -/
def withoutAttribute (kind : RecordKind) (name : String) : Failure :=
  .missingAttribute (owner (.record kind [] .absent)) name

mutual

/-- The text that shows a value as a reader would write it: a text as it is, and an entity as its identity. What
fails to tell its identity cannot be shown, nor can an integer of too many digits. -/
def display : Value → Except Failure String
  | .text s => .ok s
  | .timestamp t => .ok t.display
  | .date d => .ok d.display
  | .objectId o => .ok o.display
  | .decimal s => .ok s
  | .url s => .ok s
  | .direction d => .ok ("Order." ++ d.name)
  | .entityId id => display id
  | .document .readOnly fields => do
    let shown ← spelledFields fields
    pure (documentLiteral .plain shown)
  | .record kind attributes identity =>
    match identityDisplay kind (attributeDisplays attributes) identity with
    | none => recordDisplay kind attributes
    | some shown =>
      match Dictionary.get? "id" attributes with
      | some a => do
        let id ← a.called []
        id.spelled
      | none => shown
  | v => spelled v
termination_by structural v => v

/-- The display of an identity, from those of the attributes. -/
def identityDisplay (kind : RecordKind) (attributes : List (String × Except Failure String)) :
    Identification Value → Option (Except Failure String)
  | .absent => none
  | .fixed id => some (display id)
  | .byAttribute name =>
    some ((Dictionary.get? name attributes).getD (.error (withoutAttribute kind name)))
termination_by structural i => i

def attributeDisplay : String × Value → String × Except Failure String
  | (name, v) => (name, display v)
termination_by structural p => p

/-- The names of attributes with the displays of their values. -/
def attributeDisplays : List (String × Value) → List (String × Except Failure String)
  | [] => []
  | p :: as => attributeDisplay p :: attributeDisplays as
termination_by structural as => as

end

end Value

end EntityStore

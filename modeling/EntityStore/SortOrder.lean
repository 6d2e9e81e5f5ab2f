import EntityStore.Log
import EntityStore.Mapping.Basic

namespace EntityStore

namespace Direction

/-- The direction that a value is, or is the code of. -/
def ofValue? : Value → Option Direction
  | .direction d => some d
  | .text s => ofCode? s
  | _ => none

/-- Reads a direction, or the code of one. -/
def ofValue (v : Value) : Except Failure Direction :=
  match ofValue? v with
  | some d => .ok d
  | none => do
    let shown ← v.spelled
    .error (.notDirection shown)

end Direction

/-- Fields to sort by, each with its direction. The field that was set first counts first. -/
structure SortOrder where
  orders : Dictionary Value Direction

namespace SortOrder

def empty : SortOrder := ⟨[]⟩

def isEmpty (s : SortOrder) : Bool := s.orders.isEmpty

/-- Sets the direction of a field. A field that is set again keeps its place. -/
def set (s : SortOrder) (name direction : Value) : Except Failure SortOrder :=
  match direction with
  | .direction d => do
    let name ← name.asKey
    pure ⟨Dictionary.insert name d s.orders⟩
  | _ => .error (.directionExpected direction.typeName)

def orderFor (s : SortOrder) (name : Value) : Except Failure (Option Direction) := do
  let name ← name.asKey
  pure (Dictionary.get? name s.orders)

def has (s : SortOrder) (name : Value) : Except Failure Bool := do
  let name ← name.asKey
  pure (Dictionary.contains name s.orders)

/-- Sorts by each of some fields in one direction, ascending if none is given. -/
def ofValues (names direction : Value) : Except Failure SortOrder := do
  let names ← if names.isTruthy then names.elements else .ok []
  let direction := if direction.isTruthy then direction else .direction .ascending
  names.foldlM (fun s name => s.set name direction) empty

/-- Sorts by fields with the codes of their directions. -/
def ofCodes (orders : List (Value × Value)) : Except Failure SortOrder :=
  orders.foldlM (fun s p => do
    let d ← Direction.ofValue p.2
    s.set p.1 (.direction d)) empty

def spelled (s : SortOrder) : Except Failure String := do
  let shown ← s.orders.mapM fun p => do
    let name ← p.1.spelled
    pure (name ++ ": " ++ p.2.code)
  pure ("Sort(" ++ Value.enclosed "\x7b" shown "\x7d" ++ ")")

/-- The literal of a sort order, which is empty if the order cannot be spelled. -/
def literal (s : SortOrder) : String := s.spelled.toOption.getD ""

end SortOrder

/-- Storage names, each with the sign of its direction; the first one counts first. -/
abbrev SortKeys := List (String × Int)

namespace SortKeys

def value (keys : SortKeys) : Value := .list (keys.map fun k => .tuple [.text k.1, .int k.2])

end SortKeys

def SortOrder.keys (m : MappingArgument) (s : SortOrder) : Except Failure SortKeys :=
  s.orders.mapM fun p => do
    let field ← m.storageField p.1
    pure (field, p.2.sign)

/-- The keys of a sort order that may be absent or empty; then there are none. -/
def sortKeysOf (sort : Option SortOrder) (m : MappingArgument) : Reported SortKeys :=
  match sort with
  | none => pure []
  | some s =>
    if s.isEmpty then pure []
    else do
      let keys ← Reported.ofExcept (s.keys m)
      let shown ← Reported.ofExcept s.spelled
      let compiled ← Reported.ofExcept keys.value.spelled
      Reported.note .debug s!"Compiled {shown} to MongoDB sort: {compiled}"
      pure keys

end EntityStore

import EntityStore.Number.Quantity
import EntityStore.Sorting.Runs
import EntityStore.Value.Display

namespace EntityStore

namespace Value

/-- Place of the type of a value in the order of types. -/
def bracket : Value → Nat
  | .null => 1
  | .bool _ => 8
  | .int _ | .float _ => 2
  | .text _ => 3
  | .document _ _ => 4
  | .list _ | .tuple _ => 5
  | .bytes _ => 6
  | .objectId _ => 7
  | .timestamp _ => 9
  | _ => 10

/-- Order of bytes as in a dictionary. -/
def bytesLess : List UInt8 → List UInt8 → Bool
  | _, [] => false
  | [], _ :: _ => true
  | a :: as, b :: bs => decide (a < b) || (a == b && bytesLess as bs)

/-- Order of the values of one type that has an order. A naive timestamp is taken to be in universal
time. -/
def less : Value → Value → Bool
  | .bool a, .bool b => !a && b
  | .int a, .int b => (Quantity.ofInt a).less (.ofInt b)
  | .int a, .float b => (Quantity.ofInt a).less (.ofBinary64 b)
  | .float a, .int b => (Quantity.ofBinary64 a).less (.ofInt b)
  | .float a, .float b => (Quantity.ofBinary64 a).less (.ofBinary64 b)
  | .text a, .text b => decide (a < b)
  | .bytes a, .bytes b => bytesLess a b
  | .objectId a, .objectId b => bytesLess a.bytes b.bytes
  | .timestamp a, .timestamp b => decide (a.instant < b.instant)
  | _, _ => false

/-- Whether the values of a type have no order of their own. -/
def hasDisplayOrder (v : Value) : Bool := [1, 4, 5, 10].contains v.bracket

/-- Whether a value comes neither before nor behind any number. -/
def isUndefined : Value → Bool
  | .float .nan => true
  | _ => false

end Value

/-- What a value is sorted by: the place of its type, and the value itself or its display. -/
structure SortKey where
  bracket : Nat
  key : Value

namespace SortKey

/-- The key of a value; it fails for a value that has to be shown and cannot be. -/
def ofValue (v : Value) : Except Failure SortKey :=
  if v.hasDisplayOrder then do
    let shown ← v.display
    pure ⟨v.bracket, .text shown⟩
  else .ok ⟨v.bracket, v⟩

/-- Whether a key comes before another. -/
def precedes (a b : SortKey) : Bool :=
  if a.bracket = b.bracket then a.key.less b.key else decide (a.bracket < b.bracket)

end SortKey

namespace Value

def keyed (v : Value) : Except Failure (SortKey × Value) := do
  let key ← SortKey.ofValue v
  pure (key, v)

/-- Values in the order of their keys; those with equal keys keep their places. Undefined numbers leave
it open where they and their neighbours belong, and the runs of the list decide. -/
def ordered (keyed : List (SortKey × Value)) : List (SortKey × Value) :=
  if keyed.any fun p => p.2.isUndefined then Sorting.sort (fun a b => a.1.precedes b.1) keyed
  else keyed.mergeSort fun a b => !b.1.precedes a.1

/-- Sorts values in a direction. Those with equal keys keep their places either way. -/
def sorted (d : Direction) (vs : List Value) : Except Failure (List Value) := do
  let pairs ← vs.mapM keyed
  let pairs := match d with
    | .ascending => ordered pairs
    | .descending => (ordered pairs.reverse).reverse
  pure (pairs.map (·.2))

end Value

end EntityStore

import EntityStore.Number.IntegerText
import EntityStore.Value.Access
import EntityStore.Value.Basic
import EntityStore.Value.Literal

namespace EntityStore

/-- A floating-point number without its fraction. -/
def Binary64.integerPart : Binary64 → Except Failure Int
  | .nan => .error .undefinedInteger
  | .infinity _ => .error .infiniteInteger
  | .finite negative m e =>
    let n : Int := Magnitude.floor ⟨m, e⟩
    .ok (if negative then -n else n)

namespace Value

/-- The integer that a value is or writes. -/
def integer : Value → Except Failure Int
  | .bool b => .ok b.toNat
  | .int n => .ok n
  | .float x => x.integerPart
  | .text s => IntegerText.read s
  | .bytes bs => IntegerText.readBytes bs
  | v => .error (.notNumber v.qualifiedTypeName)

/-- The integer that a place is; truth values count as zero and one. -/
def place? : Value → Option Int
  | .bool b => some b.toNat
  | .int n => some n
  | _ => none

/-- Places are held in words of sixty-four bits with a sign. -/
def isPlace (n : Int) : Bool :=
  decide (-9223372036854775808 ≤ n) && decide (n ≤ 9223372036854775807)

/-- The item at a place of a sequence. -/
def itemAt (sequence : SequenceKind) (items : List Value) (key : Value) : Except Failure Value :=
  match key.place? with
  | none => .error (.placeExpected sequence key.qualifiedTypeName)
  | some n =>
    if !isPlace n then .error (.placeTooLarge key.typeName)
    else
      let n := if n < 0 then n + items.length else n
      if n < 0 then .error (.outOfRange sequence)
      else match items[n.toNat]? with
        | some item => .ok item
        | none => .error (.outOfRange sequence)

def fieldUnder (fields : Document) (key : Value) : Except Failure Value := do
  let key ← key.asKey
  match Dictionary.get? key fields with
  | some v => pure v
  | none => throw (.missingKey key.literal)

def item (v key : Value) : Except Failure Value :=
  match v with
  | .document _ fields => fieldUnder fields key
  | .list items => itemAt .list items key
  | .tuple items => itemAt .tuple items key
  | .text s => itemAt .text (s.toList.map fun c => .text c.toString) key
  | .bytes bs => itemAt .bytes (bs.map fun b => .int b.toNat) key
  | .recordType name => .error (.typeNotSubscriptable name)
  | v => .error (.notSubscriptable v.qualifiedTypeName)

end Value

end EntityStore

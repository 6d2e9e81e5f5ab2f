import EntityStore.Text.Hex

namespace EntityStore

/-- The bytes of a native identifier, twelve as a rule. -/
structure ObjectId where
  bytes : List UInt8
  deriving DecidableEq, Repr

namespace ObjectId

/-- Two hexadecimal digits for each byte. -/
def display (o : ObjectId) : String := String.ofList (Hex.encode o.bytes)

/-- A text of twenty-four characters that is made of pairs of hexadecimal digits. Blanks may stand
between the pairs, so that the identifier can be shorter than twelve bytes. -/
def ofText? (s : String) : Option ObjectId :=
  if s.toList.length = 24 then (Hex.decode s.toList).map ObjectId.mk else none

/-- Twelve bytes denote an identifier. -/
def ofBytes? (bs : List UInt8) : Option ObjectId :=
  if bs.length = 12 then some ⟨bs⟩ else none

def ofHex? (s : String) : Option ObjectId := (Hex.decode s.toList).map ObjectId.mk

/-- The `n`-th identifier of a sequence that counts from one. -/
def ofNumber (n : Nat) : ObjectId :=
  ⟨(List.range 12).map fun i => UInt8.ofNat (n >>> (8 * (11 - i)))⟩

end ObjectId

end EntityStore

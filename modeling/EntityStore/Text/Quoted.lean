import EntityStore.Text.Hex
import EntityStore.Text.Printable

namespace EntityStore.Quoted

/-- The quote that needs the fewest escapes; a single one if both kinds need some. -/
def quoteFor (cs : List Char) : Char :=
  if cs.contains '\'' && !cs.contains '"' then '"' else '\''

/-- The hexadecimal escape of a code point: two, four or eight digits. -/
def hexEscape (n : Nat) : List Char :=
  if n < 0x100 then '\\' :: 'x' :: Hex.digits 2 n
  else if n < 0x10000 then '\\' :: 'u' :: Hex.digits 4 n
  else '\\' :: 'U' :: Hex.digits 8 n

/-- One character between quotes of the given kind. -/
def escape (quote c : Char) : List Char :=
  if c == quote || c == '\\' then ['\\', c]
  else if c == '\n' then ['\\', 'n']
  else if c == '\r' then ['\\', 'r']
  else if c == '\t' then ['\\', 't']
  else if Printable.isPrintable c then [c]
  else hexEscape c.toNat

def text (s : String) : String :=
  let quote := quoteFor s.toList
  String.ofList (quote :: (s.toList.flatMap (escape quote) ++ [quote]))

/-- A byte is shown as the ASCII character it is the code of, if that has a visible form. -/
def escapeByte (quote : Char) (b : UInt8) : List Char :=
  if b.toNat < 127 then escape quote (Char.ofNat b.toNat) else hexEscape b.toNat

def bytes (bs : List UInt8) : String :=
  let quote := quoteFor (bs.map fun b => Char.ofNat b.toNat)
  String.ofList ('b' :: quote :: (bs.flatMap (escapeByte quote) ++ [quote]))

end EntityStore.Quoted

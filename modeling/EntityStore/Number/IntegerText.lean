import EntityStore.Failure
import EntityStore.Text.Numeral
import EntityStore.Text.Quoted

namespace EntityStore.IntegerText

/-- Integers with more digits than this are neither read nor shown. -/
def mostDigits : Nat := 4300

/-- At most this many characters of a refused text are shown. -/
def shownCharacters : Nat := 200

/-- Whether a character can stand in a row of digits. -/
def isInRow (c : Char) : Bool := c == '_' || (Numeral.digitValue? c).isSome

/-- Whether underscores stand only between two digits of a row. -/
def isEven : List Char → Bool
  | '_' :: _ => false
  | [_, '_'] => false
  | _ :: '_' :: '_' :: _ => false
  | _ :: '_' :: rest => isEven rest
  | _ :: rest => isEven rest
  | [] => true

/-- The number that digits write. -/
def value (ds : List Nat) : Nat := ds.foldl (fun n d => 10 * n + d) 0

/-- Whether a sign stands in front, and what follows it. -/
def signed : List Char → Bool × List Char
  | '-' :: cs => (true, cs)
  | '+' :: cs => (false, cs)
  | cs => (false, cs)

/-- Reads an integer, of which a literal is shown if it cannot be read. -/
def readChars (cs : List Char) (literal : String) : Except Failure Int :=
  let (negative, cs) := signed (cs.dropWhile Numeral.isBlank)
  let row := cs.takeWhile isInRow
  let ds := row.filterMap Numeral.digitValue?
  let refused := .error (.notInteger (String.ofList (literal.toList.take shownCharacters)))
  if !isEven row then refused
  else if mostDigits < ds.length then .error (.tooManyDigits mostDigits ds.length)
  else if ds.isEmpty || !(cs.drop row.length).all Numeral.isBlank then refused
  else .ok (if negative then -(value ds : Int) else value ds)

def read (s : String) : Except Failure Int := readChars s.toList (Quoted.text s)

/-- Reads an integer from bytes, which stand for the characters of the ASCII table. -/
def readBytes (bs : List UInt8) : Except Failure Int :=
  readChars (bs.map fun b => if b.toNat < 128 then Char.ofNat b.toNat else '?')
    (Quoted.bytes (bs.take shownCharacters))

/-- The digits of an integer, with a sign if it is negative. -/
def shown (n : Int) : Except Failure String :=
  let s := toString n.natAbs
  if mostDigits < s.length then .error (.tooLongToShow mostDigits)
  else .ok (if n < 0 then "-" ++ s else s)

end EntityStore.IntegerText

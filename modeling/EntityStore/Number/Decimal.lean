import EntityStore.Number.Binary64
import EntityStore.Text.Numeral

namespace EntityStore

/-- The decimal number `digits · 10 ^ exponent`. -/
structure Decimal where
  digits : Nat
  exponent : Int
  deriving DecidableEq, Repr

namespace Decimal

/-- The binary number nearest to a decimal one. -/
def nearest? (d : Decimal) : Option Magnitude :=
  Magnitude.nearest? (d.digits * tenTo d.exponent) (tenTo (-d.exponent))

/-- Moves the trailing zeros of the digits, at most `fuel` of them, into the exponent. -/
def stripped : Nat → Decimal → Decimal
  | 0, d => d
  | fuel + 1, d => if d.digits % 10 = 0 then stripped fuel ⟨d.digits / 10, d.exponent + 1⟩ else d

end Decimal

namespace Magnitude

/-- More places than any binary number has zeros after its decimal point. -/
def placesBelowOne : Nat := 400

/-- The least `k` for which a positive number is less than `10 ^ k`. -/
def decimalScale (x : Magnitude) : Int :=
  let scaled := x.mantissa * twoTo x.exponent * tenTo placesBelowOne / twoTo (-x.exponent)
  ((toString scaled).length : Int) - placesBelowOne

/-- The neighbour of `x` on the grid `10 ^ exponent` that reads back as `x`; of two the nearer one,
and of two equally near ones the even one. -/
def onGrid? (x : Magnitude) (exponent : Int) : Option Decimal :=
  let num := x.mantissa * twoTo x.exponent * tenTo (-exponent)
  let den := twoTo (-x.exponent) * tenTo exponent
  let below : Decimal := ⟨num / den, exponent⟩
  let above : Decimal := ⟨num / den + 1, exponent⟩
  match below.nearest? == some x, above.nearest? == some x with
  | true, true => some (if Magnitude.roundDiv num den = num / den then below else above)
  | true, false => some below
  | false, true => some above
  | false, false => none

/-- The shortest decimal that reads back as `x`; seventeen digits always do. -/
def shortest (x : Magnitude) : Decimal :=
  if x.mantissa = 0 then ⟨0, 0⟩
  else
    let scale := x.decimalScale
    let found := (List.range 17).findSome? fun n => x.onGrid? (scale - (n + 1 : Nat))
    (found.getD ⟨x.mantissa, 0⟩).stripped 400

end Magnitude

namespace Binary64

/-- Numbers from `10 ^ -4` up to `10 ^ 16` are written without an exponent. -/
def positional (point : Int) : Bool := decide (-4 < point) && decide (point ≤ 16)

/-- An exponent has a sign and at least two digits. -/
def exponentText (e : Int) : String :=
  "e" ++ (if e < 0 then "-" else "+") ++ Digits.padded 2 e.natAbs

/-- Writes `digits` with the decimal point after the first `point` of them. -/
def layout (digits : List Char) (point : Int) : String :=
  let zeros (n : Int) := List.replicate n.toNat '0'
  if positional point then
    if point ≤ 0 then String.ofList ('0' :: '.' :: zeros (-point) ++ digits)
    else if (digits.length : Int) ≤ point then
      String.ofList (digits ++ zeros (point - digits.length) ++ ['.', '0'])
    else String.ofList (digits.take point.toNat ++ '.' :: digits.drop point.toNat)
  else
    let tail := digits.drop 1
    String.ofList (digits.take 1 ++ (if tail.isEmpty then [] else '.' :: tail))
      ++ exponentText (point - 1)

def magnitudeText (x : Magnitude) : String :=
  if x.mantissa = 0 then "0.0"
  else
    let d := x.shortest
    let digits := (toString d.digits).toList
    layout digits (digits.length + d.exponent)

def text : Binary64 → String
  | .nan => "nan"
  | .infinity negative => if negative then "-inf" else "inf"
  | .finite negative m e => (if negative then "-" else "") ++ magnitudeText ⟨m, e⟩

/-- Reads a signed row of decimal digits. -/
def signedDigits? : List Char → Option Int
  | '-' :: cs => (Digits.value? cs).map fun n => -(n : Int)
  | '+' :: cs => (Digits.value? cs).map Int.ofNat
  | cs => (Digits.value? cs).map Int.ofNat

/-- Reads digits, an optional fraction and an optional exponent. There is at least one digit. -/
def decimal? (cs : List Char) : Option Decimal := do
  let mantissa := cs.takeWhile (· != 'e')
  let exponent ← match cs.dropWhile (· != 'e') with
    | _ :: e => signedDigits? e
    | [] => some 0
  let fraction := (mantissa.dropWhile (· != '.')).drop 1
  let row := mantissa.takeWhile (· != '.') ++ fraction
  if row.isEmpty then none
  let digits ← Digits.value? row
  pure ⟨digits, exponent - fraction.length⟩

def ofText? (s : String) : Option Binary64 :=
  if s == "nan" then some .nan
  else
    let negative := s.toList.head? == some '-'
    let rest := if negative then s.toList.drop 1 else s.toList
    if rest == ['i', 'n', 'f'] then some (.infinity negative)
    else do
      let d ← decimal? rest
      pure (match d.nearest? with
        | some x => .finite negative x.mantissa x.exponent
        | none => .infinity negative)

end Binary64

end EntityStore

import EntityStore.Failure

namespace EntityStore

def twoTo (e : Int) : Nat := Nat.pow 2 e.toNat

def tenTo (e : Int) : Nat := Nat.pow 10 e.toNat

/-- Not a number, an infinity, or `± mantissa · 2 ^ exponent`. -/
inductive Binary64 where
  | nan
  | infinity (negative : Bool)
  | finite (negative : Bool) (mantissa : Nat) (exponent : Int)
  deriving DecidableEq, Repr

/-- A non-negative finite number, `mantissa · 2 ^ exponent`. -/
structure Magnitude where
  mantissa : Nat
  exponent : Int
  deriving DecidableEq, Repr

namespace Magnitude

/-- The least exponent: below it lies nothing but zero. -/
def leastExponent : Int := -1074

/-- The exponent of the largest finite numbers. -/
def greatestExponent : Int := 971

/-- The quotient rounded to the nearest natural number, a half to the even neighbour. -/
def roundDiv (num den : Nat) : Nat :=
  let twice := 2 * (num % den)
  if twice < den then num / den
  else if den < twice then num / den + 1
  else num / den + (num / den) % 2

/-- The least `b` with `num / den < 2 ^ b`, for positive arguments. -/
def binaryScale (num den : Nat) : Int :=
  let guess : Int := (num.log2 : Int) - (den.log2 : Int)
  if num * twoTo (-guess) < den * twoTo guess then guess else guess + 1

/-- The exponent that leaves fifty-three bits of the quotient, or the least one there is. -/
def lastPlace (num den : Nat) : Int :=
  max leastExponent (binaryScale num den - 53)

/-- A mantissa that was rounded up to fifty-four bits is halved. -/
def carried (mantissa : Nat) (exponent : Int) : Magnitude :=
  if mantissa = twoTo 53 then ⟨twoTo 52, exponent + 1⟩ else ⟨mantissa, exponent⟩

/-- The number nearest to `num / den`, none when that lies beyond the largest one. -/
def nearest? (num den : Nat) : Option Magnitude :=
  if num = 0 then some ⟨0, leastExponent⟩
  else
    let e := lastPlace num den
    let r := carried (roundDiv (num * twoTo (-e)) (den * twoTo e)) e
    if greatestExponent < r.exponent then none else some r

def ceil (x : Magnitude) : Nat :=
  (x.mantissa * twoTo x.exponent + (twoTo (-x.exponent) - 1)) / twoTo (-x.exponent)

def floor (x : Magnitude) : Nat :=
  x.mantissa * twoTo x.exponent / twoTo (-x.exponent)

end Magnitude

end EntityStore

namespace EntityStore.Quotient

/-- The least integer that is no less than a magnitude with a sign. -/
def signedCeil (negative : Bool) (x : Magnitude) : Int :=
  if negative then -(x.floor : Int) else (x.ceil : Int)

/-- The least integer that is no less than the binary number nearest to the quotient. -/
def ceil (num den : Int) : Except Failure Int :=
  if den = 0 then .error .divisionByZero
  else
    match Magnitude.nearest? num.natAbs den.natAbs with
    | none => .error .quotientOverflow
    | some x => .ok (signedCeil ((num < 0) != (den < 0)) x)

/-- The least integer that is no less than the quotient of a floating-point number. -/
def ceilOfFloat (x : Binary64) (den : Int) : Except Failure Int :=
  match Magnitude.nearest? den.natAbs 1 with
  | none => .error .numberTooLarge
  | some d =>
    if den = 0 then .error .quotientByZero
    else
      match x with
      | .nan => .error .undefinedInteger
      | .infinity _ => .error .infiniteInteger
      | .finite negative m e =>
        match Magnitude.nearest? (m * twoTo e * twoTo (-d.exponent))
            (d.mantissa * twoTo d.exponent * twoTo (-e)) with
        | none => .error .infiniteInteger
        | some q => .ok (signedCeil (negative != decide (den < 0)) q)

end EntityStore.Quotient

import EntityStore.Number.Binary64

namespace EntityStore

/-- A place on the extended number line, `significand · 2 ^ exponent` when it is finite. -/
inductive Quantity where
  | undefined
  | below
  | exact (significand : Int) (exponent : Int)
  | above
  deriving DecidableEq, Repr

namespace Quantity

def ofInt (n : Int) : Quantity := .exact n 0

def ofBinary64 : Binary64 → Quantity
  | .nan => .undefined
  | .infinity true => .below
  | .infinity false => .above
  | .finite negative m e => .exact (if negative then -(m : Int) else m) e

/-- The significand of `a · 2 ^ i` when it is written over the lesser of the exponents `i` and `j`. -/
def aligned (a i j : Int) : Int := a * (twoTo (i - min i j) : Int)

def same : Quantity → Quantity → Bool
  | .below, .below => true
  | .above, .above => true
  | .exact a i, .exact b j => aligned a i j == aligned b j i
  | _, _ => false

def less : Quantity → Quantity → Bool
  | .below, .exact _ _ => true
  | .below, .above => true
  | .exact _ _, .above => true
  | .exact a i, .exact b j => decide (aligned a i j < aligned b j i)
  | _, _ => false

def isZero : Quantity → Bool
  | .exact a _ => a == 0
  | _ => false

end Quantity

end EntityStore

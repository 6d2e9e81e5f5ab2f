namespace EntityStore

inductive Direction where
  | ascending
  | descending
  deriving DecidableEq, Repr

namespace Direction

def code : Direction → String
  | .ascending => "ASC"
  | .descending => "DESC"

def name : Direction → String
  | .ascending => "ASCENDING"
  | .descending => "DESCENDING"

def isAscending : Direction → Bool
  | .ascending => true
  | .descending => false

def isDescending : Direction → Bool
  | .ascending => false
  | .descending => true

def rank : Direction → Nat
  | .ascending => 0
  | .descending => 1

/-- The sign that the engine takes for a direction. -/
def sign : Direction → Int
  | .ascending => 1
  | .descending => -1

def ofCode? (s : String) : Option Direction :=
  if s = "ASC" then some .ascending else if s = "DESC" then some .descending else none

theorem ofCode?_code (d : Direction) : ofCode? d.code = some d := by cases d <;> rfl

end Direction

end EntityStore

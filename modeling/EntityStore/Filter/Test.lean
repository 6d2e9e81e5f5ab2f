import EntityStore.Value.Literal

namespace EntityStore

/-- Where in a text another one is looked for. -/
inductive TextPart where
  | anywhere
  | start
  | finish
  deriving DecidableEq, Repr

inductive Comparison where
  | greater
  | greaterOrEqual
  | less
  | lessOrEqual
  deriving DecidableEq, Repr

/-- The comparison that holds where this one does not, on values in one order. -/
def Comparison.opposite : Comparison → Comparison
  | .greater => .lessOrEqual
  | .greaterOrEqual => .less
  | .less => .greaterOrEqual
  | .lessOrEqual => .greater

/-- The kind of a test, without what the field is tested against. A flag tells whether the test asks
that something holds or that it does not. -/
inductive TestKind where
  | equality (holds : Bool)
  | text (part : TextPart) (holds : Bool)
  | comparison (c : Comparison)
  | range (holds : Bool)
  | membership (holds : Bool)
  | emptiness (holds : Bool)
  deriving DecidableEq, Repr

namespace TestKind

def name : TestKind → String
  | .equality true => "equals"
  | .equality false => "not_equal"
  | .text .anywhere true => "contains"
  | .text .anywhere false => "not_contains"
  | .text .start true => "starts_with"
  | .text .start false => "not_starts"
  | .text .finish true => "ends_with"
  | .text .finish false => "not_ends"
  | .comparison .greater => "greater_than"
  | .comparison .greaterOrEqual => "greater_than_or_equal"
  | .comparison .less => "less_than"
  | .comparison .lessOrEqual => "less_than_or_equal"
  | .range true => "ranges"
  | .range false => "not_ranges"
  | .membership true => "group"
  | .membership false => "not_group"
  | .emptiness true => "empty"
  | .emptiness false => "not_empty"

/-- All kinds, in the order in which their tests are put into a query. -/
def all : List TestKind :=
  [.equality true, .equality false, .text .anywhere true, .text .anywhere false, .text .start true,
   .text .start false, .text .finish true, .text .finish false, .comparison .greater,
   .comparison .greaterOrEqual, .comparison .less, .comparison .lessOrEqual, .range true,
   .range false, .membership true, .membership false, .emptiness true, .emptiness false]

/-- The kind that asks for the contrary. -/
def opposite : TestKind → TestKind
  | .equality holds => .equality !holds
  | .text part holds => .text part !holds
  | .comparison c => .comparison c.opposite
  | .range holds => .range !holds
  | .membership holds => .membership !holds
  | .emptiness holds => .emptiness !holds

theorem mem_all (k : TestKind) : k ∈ all := by
  cases k with
  | equality h => cases h <;> decide
  | text p h => cases p <;> cases h <;> decide
  | comparison c => cases c <;> decide
  | range h => cases h <;> decide
  | membership h => cases h <;> decide
  | emptiness h => cases h <;> decide

end TestKind

inductive Test where
  | equality (holds : Bool) (v : Value)
  | text (part : TextPart) (holds : Bool) (s : String)
  | comparison (c : Comparison) (v : Value)
  | range (holds : Bool) (low high : Value)
  | membership (holds : Bool) (items : List Value)
  | emptiness (holds : Bool)

namespace Test

def kind : Test → TestKind
  | .equality holds _ => .equality holds
  | .text part holds _ => .text part holds
  | .comparison c _ => .comparison c
  | .range holds _ _ => .range holds
  | .membership holds _ => .membership holds
  | .emptiness holds => .emptiness holds

/-- The test for the contrary. -/
def opposite : Test → Test
  | .equality holds v => .equality (!holds) v
  | .text part holds s => .text part (!holds) s
  | .comparison c v => .comparison c.opposite v
  | .range holds low high => .range (!holds) low high
  | .membership holds items => .membership (!holds) items
  | .emptiness holds => .emptiness !holds

/-- What the field is tested against, as one value: two bounds are a tuple, and a test for emptiness
that needs nothing has the value true. -/
def operand : Test → Value
  | .equality _ v => v
  | .text _ _ s => .text s
  | .comparison _ v => v
  | .range _ low high => .tuple [low, high]
  | .membership _ items => .list items
  | .emptiness _ => .bool true

theorem kind_opposite (t : Test) : t.opposite.kind = t.kind.opposite := by
  cases t <;> rfl

theorem opposite_opposite (t : Test) : t.opposite.opposite = t := by
  cases t with
  | comparison c v => cases c <;> rfl
  | _ => simp [opposite]

theorem operand_opposite (t : Test) : t.opposite.operand = t.operand := by
  cases t <;> rfl

end Test

end EntityStore

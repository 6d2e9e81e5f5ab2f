import EntityStore.Proofs.Document.Stored
import EntityStore.Query.Basic
import EntityStore.Value.Order

namespace EntityStore

namespace Value

/-- Whether a pattern occurs in a text, whatever the case of the letters. -/
def hasMatch (source : String) : Value → Bool
  | .text s =>
    match Expression.read .caseless source.toLower with
    | .ok outcome =>
      (Expression.firstMatch? s.toLower.toList outcome.expression none
        (List.range (s.length + 1))).isSome
    | .error _ => false
  | _ => false

/-- Whether a value compares to a bound as asked; values of different types do not compare. -/
def comparesTo (v bound : Value) (c : Comparison) : Bool :=
  v.bracket == bound.bracket && match c with
    | .greater => bound.less v
    | .greaterOrEqual => !v.less bound
    | .less => v.less bound
    | .lessOrEqual => !bound.less v

theorem less_int (a b : Int) : (Value.int a).less (.int b) = decide (a < b) := by
  simp [less, Quantity.less, Quantity.ofInt, Quantity.aligned, twoTo]

theorem comparesTo_int (a b : Int) : ∀ c : Comparison, (Value.int a).comparesTo (.int b) c = match c with
    | .greater => decide (b < a)
    | .greaterOrEqual => decide (b ≤ a)
    | .less => decide (a < b)
    | .lessOrEqual => decide (a ≤ b)
  | .greater | .greaterOrEqual | .less | .lessOrEqual => by
    simp [comparesTo, bracket, less_int, ← decide_not]

end Value

/-- Whether a name is that of an operator. -/
def isOperator (name : String) : Bool := name.toList.head? == some '$'

/-- Whether fields are operators, by the first of them. -/
def areOperators : Document → Bool
  | (.text name, _) :: _ => isOperator name
  | _ => false

/-- Whether a value that may be missing fulfils an operator. What is missing counts as null. -/
def fulfilsOperator (stored : Option Value) (operator : String) (operand : Value) : Bool :=
  let v := stored.getD .null
  match operator, operand with
  | "$eq", w => v == w
  | "$ne", w => !(v == w)
  | "$in", .list ws => ws.any fun w => v == w
  | "$nin", .list ws => !ws.any fun w => v == w
  | "$gt", w => v.comparesTo w .greater
  | "$gte", w => v.comparesTo w .greaterOrEqual
  | "$lt", w => v.comparesTo w .less
  | "$lte", w => v.comparesTo w .lessOrEqual
  | "$regex", .text source => v.hasMatch source
  | "$options", _ => true
  | "$exists", .bool b => stored.isSome == b
  | "$type", .text "array" => match v with
    | .list _ => true
    | _ => false
  | "$size", .int n => match v with
    | .list items => (items.length : Int) == n
    | _ => false
  | _, _ => false

mutual

/-- Whether a value that may be missing is what is asked for. -/
def fulfilsValue (stored : Option Value) : Value → Bool
  | .document kind fields =>
    if areOperators fields then fulfilsAll stored fields
    else stored.getD .null == .document kind fields
  | v => stored.getD .null == v
termination_by structural v => v

def fulfilsAll (stored : Option Value) : List (Value × Value) → Bool
  | [] => true
  | p :: ps => fulfilsEntry stored p && fulfilsAll stored ps
termination_by structural ps => ps

def fulfilsEntry (stored : Option Value) : Value × Value → Bool
  | (.text "$not", .pattern p) => !(stored.getD .null).hasMatch p.source
  | (.text "$not", v) => !fulfilsValue stored v
  | (.text operator, operand) => fulfilsOperator stored operator operand
  | _ => false
termination_by structural p => p

end

theorem fulfilsEntry_operator (stored : Option Value) {operator : String} (operand : Value)
    (hne : operator ≠ "$not") :
    fulfilsEntry stored (.text operator, operand) = fulfilsOperator stored operator operand := by
  unfold fulfilsEntry
  split
  case h_3 operator' _ _ _ h =>
    injection h with hname hoperand
    rw [hoperand, Value.text.inj hname]
  all_goals simp_all

namespace Document

/-- Whether a field of a document is what is asked for. -/
def fulfils (d : Document) (field : String) (asked : Value) : Bool := fulfilsValue (d.stored? field) asked

/-- Whether a field that has to equal a value that is no document does. -/
theorem fulfils_literally (d : Document) (field : String) {v : Value} (hv : v.isDocument = false) :
    d.fulfils field v = ((d.stored? field).getD .null == v) := by
  cases v <;> simp_all [fulfils, fulfilsValue, Value.isDocument]

theorem fulfils_operator (d : Document) (field : String) {operator : String} (operand : Value)
    (hop : isOperator operator = true) (hne : operator ≠ "$not") :
    d.fulfils field (.single operator operand) =
      fulfilsOperator (d.stored? field) operator operand := by
  simp [fulfils, fulfilsValue, areOperators, hop, fulfilsAll, fulfilsEntry_operator _ _ hne]

theorem fulfils_among (d : Document) (field : String) (vs : List Value) :
    d.fulfils field (.single "$in" (.list vs)) = vs.any fun v => (d.stored? field).getD .null == v :=
  d.fulfils_operator field (.list vs) (by decide) (by decide)

theorem fulfils_both (d : Document) (field : String) {a b : String} (v w : Value)
    (ha : isOperator a = true) (hb : isOperator b = true) :
    d.fulfils field (.plain [(.text a, v), (.text b, w)]) =
      (d.fulfils field (.single a v) && d.fulfils field (.single b w)) := by
  simp [fulfils, fulfilsValue, areOperators, fulfilsAll, ha, hb]

theorem fulfils_not (d : Document) (field : String) (operators : Document) :
    d.fulfils field (.single "$not" (.plain operators)) = !d.fulfils field (.plain operators) := by
  simp [fulfils, fulfilsValue, areOperators, isOperator, fulfilsAll, fulfilsEntry]

theorem fulfils_notMatching (d : Document) (field source : String) :
    d.fulfils field (.single "$not" (.pattern ⟨source, .caseless⟩)) =
      !d.fulfils field (.plain [(.text "$regex", .text source), (.text "$options", .text "i")]) := by
  simp [fulfils, fulfilsValue, areOperators, isOperator, fulfilsAll, fulfilsEntry, fulfilsOperator]

end Document

end EntityStore

import EntityStore.Document.Copy
import EntityStore.Filter.Test
import EntityStore.Log

namespace EntityStore

/-- A test of the field with a logical name. It is told of when it is added, and so what the field is tested
against can be spelled. -/
structure Predicate where
  field : String
  test : Test
  isSpelled : test.operand.spelled.isOk = true

/-- The predicates of one group, in the order in which they were added. -/
abbrev Clause := List Predicate

inductive ClauseGroup where
  | must
  | mustNot
  | should
  deriving DecidableEq, Repr

namespace ClauseGroup

def name : ClauseGroup → String
  | .must => "must"
  | .mustNot => "must_not"
  | .should => "should"

/-- The groups in the order in which they are put into a query. -/
def all : List ClauseGroup := [.must, .mustNot, .should]

end ClauseGroup

/-- Predicates on entities in three groups. All predicates of the first group have to hold and none of the second;
any of the third is enough by itself. -/
structure Filter where
  must : Clause
  mustNot : Clause
  should : Clause

namespace Predicate

/-- The name of a field; it has to be a text and not empty. -/
def fieldName (field : Value) : Except Failure String :=
  match field with
  | .text s => if s = "" then .error .emptyFieldName else .ok s
  | _ => .error .emptyFieldName

/-- The items to look for among: those of a list, a set or a tuple. -/
def itemsOf (kind : TestKind) (v : Value) : Except Failure (List Value) :=
  match v with
  | .list items | .set items | .tuple items => .ok items
  | _ => .error (.collectionExpected kind.name)

def textOf (kind : TestKind) (v : Value) : Except Failure String :=
  match v with
  | .text s => .ok s
  | _ => .error (.textExpected kind.name)

/-- The predicate of a test that can be told of. -/
def ofTest (field : String) (test : Test) : Except Failure Predicate :=
  if h : test.operand.spelled.isOk = true then .ok ⟨field, test, h⟩
  else .error (.tooLongToShow IntegerText.mostDigits)

/-- The predicate of a kind on a field, tested against one value or two. A kind takes as many of them as
it needs. Items are checked before the name of the field, and a text after it. -/
def ofValues (kind : TestKind) (field first second : Value) : Except Failure Predicate :=
  match kind with
  | .membership holds => do
    let items ← itemsOf kind first
    let field ← fieldName field
    ofTest field (.membership holds items)
  | .text part holds => do
    let field ← fieldName field
    let s ← textOf kind first
    ofTest field (.text part holds s)
  | .equality holds => do
    let field ← fieldName field
    ofTest field (.equality holds first)
  | .comparison c => do
    let field ← fieldName field
    ofTest field (.comparison c first)
  | .range holds => do
    let field ← fieldName field
    ofTest field (.range holds first second)
  | .emptiness holds => do
    let field ← fieldName field
    ofTest field (.emptiness holds)

def addition (p : Predicate) : LogRecord :=
  ⟨.debug, s!"Adding filter: {p.test.kind.name}({Quoted.text p.field}, {p.test.operand.literal})"⟩

def opposite (p : Predicate) : Predicate :=
  ⟨p.field, p.test.opposite, by rw [Test.operand_opposite]; exact p.isSpelled⟩

end Predicate

namespace Clause

def onField (field : String) (c : Clause) : Clause := c.filter fun p => p.field == field

def ofKind (kind : TestKind) (c : Clause) : Clause := c.filter fun p => p.test.kind == kind

/-- The fields that have predicates, each once, in the order of first mention. -/
def fields (c : Clause) : List String := distinct (c.map (·.field))

/-- The kinds of the predicates, each once, in the order of first mention. -/
def kinds (c : Clause) : List TestKind := distinct (c.map (·.test.kind))

/-- The predicates with those on one field brought together. -/
def byField (c : Clause) : Clause := c.fields.flatMap fun field => c.onField field

/-- The predicates in the order in which they are put into a query: by kind, and within a kind those on
one field together. -/
def arranged (c : Clause) : Clause := TestKind.all.flatMap fun kind => (c.ofKind kind).byField

/-- What the fields are tested against, by kind and within a kind by field, in the order of
first mention. -/
def entries (c : Clause) : List (TestKind × List (String × List Value)) :=
  c.kinds.map fun kind =>
    let same := c.ofKind kind
    (kind, same.fields.map fun field => (field, (same.onField field).map (·.test.operand)))

/-- Whether the values of a clause can be copied. -/
def isCopyable (c : Clause) : Bool := c.all fun p => !p.test.operand.holdsView

/-- The fields of one kind with what they are tested against, as a document. -/
def fieldsDocument (fields : List (String × List Value)) : Value :=
  .plain (fields.map fun f => (.text f.1, .list f.2))

def spelled (c : Clause) : Except Failure String := do
  let shown ← c.entries.mapM fun e => do
    let fields ← (fieldsDocument e.2).spelled
    pure (e.1.name ++ "=" ++ fields)
  pure (Value.enclosed "BaseFilter(" shown ")")

/-- The literal of a group of predicates, which is empty if the group cannot be spelled. -/
def literal (c : Clause) : String := c.spelled.toOption.getD ""

def copiedEntries (c : Clause) : Except Failure (List (TestKind × List (String × List Value))) :=
  if c.isCopyable then .ok c.entries else .error Value.viewRefusal

end Clause

namespace Filter

def empty : Filter := ⟨[], [], []⟩

def clause (f : Filter) : ClauseGroup → Clause
  | .must => f.must
  | .mustNot => f.mustNot
  | .should => f.should

def setClause (f : Filter) (group : ClauseGroup) (c : Clause) : Filter :=
  match group with
  | .must => { f with must := c }
  | .mustNot => { f with mustNot := c }
  | .should => { f with should := c }

def add (f : Filter) (group : ClauseGroup) (p : Predicate) : Filter :=
  f.setClause group (f.clause group ++ [p])

/-- Adds a predicate to a group. One that is refused leaves the group as it was. -/
def addValues (f : Filter) (group : ClauseGroup) (kind : TestKind) (field first second : Value) :
    Reported Filter := do
  let p ← Reported.ofExcept (Predicate.ofValues kind field first second)
  Reported.note p.addition.level p.addition.message
  pure (f.add group p)

def clearClause (f : Filter) (group : ClauseGroup) : Filter := f.setClause group []

def isEmpty (f : Filter) : Bool := f.must.isEmpty && f.mustNot.isEmpty && f.should.isEmpty

def isCopyable (f : Filter) : Bool :=
  f.must.isCopyable && f.mustNot.isCopyable && f.should.isCopyable

def spelled (f : Filter) : Except Failure String := do
  let must ← f.must.spelled
  let mustNot ← f.mustNot.spelled
  let should ← f.should.spelled
  pure s!"Filter(must={must}, must_not={mustNot}, should={should})"

/-- The literal of a filter, which is empty if the filter cannot be spelled. -/
def literal (f : Filter) : String := f.spelled.toOption.getD ""

end Filter

end EntityStore

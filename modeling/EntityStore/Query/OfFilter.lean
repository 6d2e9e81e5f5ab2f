import EntityStore.Document.Prepare
import EntityStore.Filter.Basic
import EntityStore.Filter.Test
import EntityStore.Query.Basic

namespace EntityStore.LiteralPattern

/-- The characters that have a meaning in patterns, and the blanks that some of them overlook. -/
def special : List Char :=
  ['(', ')', '[', ']', '\x7b', '\x7d', '?', '*', '+', '-', '|', '^', '$', '\\', '.', '&', '~', '#',
   ' ', '\t', '\n', '\r', '\x0b', '\x0c']

def escapeChar (c : Char) : List Char := if special.contains c then ['\\', c] else [c]

/-- The pattern of the text itself. -/
def escape (s : List Char) : List Char := s.flatMap escapeChar

/-- The pattern of texts that are the given one. -/
def whole (s : String) : String := String.ofList ('^' :: (escape s.toList ++ ['$']))

/-- The pattern of texts that have the given one as a part. -/
def ofPart (part : TextPart) (s : String) : String :=
  match part with
  | .anywhere => String.ofList (escape s.toList)
  | .start => String.ofList ('^' :: escape s.toList)
  | .finish => String.ofList (escape s.toList ++ ['$'])

end EntityStore.LiteralPattern

namespace EntityStore

namespace Value

mutual

/-- The value with each literal of a native identifier in it replaced by the identifier, at every
depth of lists and tuples. -/
def native : Value → Value
  | .list items => .list (nativeItems items)
  | .tuple items => .tuple (nativeItems items)
  | v => match ObjectId.ofValue? v with
    | some o => .objectId o
    | none => v
termination_by structural v => v

def nativeItems : List Value → List Value
  | [] => []
  | v :: vs => native v :: nativeItems vs
termination_by structural vs => vs

end

/-- What a field is tested against: native identifiers in the native field, else the value itself. -/
def nativeFor (field : String) (v : Value) : Value :=
  if field = Mapping.nativeField then v.native else v

end Value

namespace Test

/-- The prepared values of a test. -/
def prepared : Test → Except Failure Test
  | .equality holds v => do pure (.equality holds (← v.prepared))
  | .text part holds s => .ok (.text part holds s)
  | .comparison c v => do pure (.comparison c (← v.prepared))
  | .range holds low high => do
    let low ← low.prepared
    let high ← high.prepared
    pure (.range holds low high)
  | .membership holds items => do
    let items ← items.mapM Value.prepared
    pure (.membership holds items)
  | .emptiness holds => .ok (.emptiness holds)

/-- The query for a test of a stored field. Equality with a text is a match of the whole text that
ignores case, except in the native field. -/
def query (field : String) : Test → Query
  | .equality holds v =>
    match v with
    | .text s =>
      if field = Mapping.nativeField then .field field (.equality holds (v.nativeFor field))
      else .field field (.pattern holds (LiteralPattern.whole s))
    | _ => .field field (.equality holds (v.nativeFor field))
  | .text part holds s => .field field (.pattern holds (LiteralPattern.ofPart part s))
  | .comparison c v => .field field (.comparison c (v.nativeFor field))
  | .range true low high => .field field (.between (low.nativeFor field) (high.nativeFor field))
  | .range false low high =>
    .any [.field field (.comparison .less (low.nativeFor field)),
      .field field (.comparison .greater (high.nativeFor field))]
  | .membership holds items =>
    .field field (.membership holds (items.map fun v => v.nativeFor field))
  | .emptiness true => .field field .emptyArray
  | .emptiness false => .field field .filledArray

end Test

def Query.isPattern : Query → Bool
  | .field _ c => c.isPattern
  | _ => false

def Predicate.query (m : MappingArgument) (p : Predicate) : Except Failure Query := do
  let field ← m.storageField (.text p.field)
  let test ← p.test.prepared
  pure (test.query field)

namespace ClauseGroup

def join : ClauseGroup → List Query → Query
  | .should, queries => .any queries
  | _, queries => .all queries

/-- The predicate that a predicate of a group asks for. -/
def asked : ClauseGroup → Predicate → Predicate
  | .mustNot, p => p.opposite
  | _, p => p

/-- Joins queries by the connective of a group, those that match patterns apart and last. -/
def combine (group : ClauseGroup) (queries : List Query) : Query :=
  let patterns := queries.filter fun q => q.isPattern
  let others := queries.filter fun q => !q.isPattern
  group.join (others ++ if patterns.isEmpty then [] else [group.join patterns])

end ClauseGroup

/-- The query for a group of predicates, none for an empty group. -/
def Clause.query (m : MappingArgument) (group : ClauseGroup) (c : Clause) : Except Failure (Option Query) :=
  if c.isEmpty then .ok none
  else do
    let queries ← c.arranged.mapM fun p => (group.asked p).query m
    pure (some (group.combine queries))

namespace Query

/-- Joins what must hold and what must not. -/
def conjoined : Option Query → Option Query → Query
  | none, none => .everything
  | some q, none => q
  | none, some q => q
  | some q, some r => .all [q, r]

/-- Joins the queries of the three groups. -/
def ofGroups (must mustNot should : Option Query) : Query :=
  match should with
  | none => conjoined must mustNot
  | some q => if must.isNone && mustNot.isNone then q else .any [conjoined must mustNot, q]

end Query

def Filter.query (m : MappingArgument) (f : Filter) : Except Failure Query := do
  if !f.isCopyable then .error Value.viewRefusal
  let must ← f.must.query m .must
  let mustNot ← f.mustNot.query m .mustNot
  let should ← f.should.query m .should
  pure (Query.ofGroups must mustNot should)

/-- What stands where a filter is expected. -/
inductive FilterArgument where
  | absent
  | filter (f : Filter)
  | other (v : Value)

/-- The document of the query for a filter; without a filter it is that for everything. -/
def queryOf (argument : FilterArgument) (m : MappingArgument) : Reported Value :=
  match argument with
  | .absent => pure (.plain [])
  | .other v => Reported.ofExcept (.error (.notFilter v.typeName))
  | .filter f => do
    let query ← Reported.ofExcept (f.query m)
    let shown ← Reported.ofExcept f.spelled
    let compiled ← Reported.ofExcept query.document.spelled
    Reported.note .debug s!"Compiled {shown} to MongoDB query: {compiled}"
    pure query.document

end EntityStore

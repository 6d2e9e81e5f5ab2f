import EntityStore.Number.Binary64
import EntityStore.Query.OfFilter
import EntityStore.Selection
import EntityStore.SortOrder

namespace EntityStore

/-- Pages are numbered from one. A selection of distinct fields asks for the values of one field
instead of entities. -/
structure PageRequest where
  number : Int
  size : Int
  sort : Option SortOrder
  filter : FilterArgument
  fields : Option Selection
  distinct : Option Selection

namespace PageRequest

/-- A page holds at least one element. -/
def atLeastOne (size : Int) : Int := if size < 1 then 1 else size

/-- The request with its size raised to one if need be. -/
def withValidSize (r : PageRequest) : PageRequest := { r with size := atLeastOne r.size }

def withNumber (r : PageRequest) (number : Int) : PageRequest := withValidSize { r with number := number }

def next (r : PageRequest) : PageRequest := r.withNumber (r.number + 1)

/-- Nothing comes before the first page. -/
def previous (r : PageRequest) : PageRequest := r.withNumber (max (r.number - 1) 1)

/-- The request with another size, which is taken as it is. -/
def setSize (r : PageRequest) (size : Int) : PageRequest := { r with size := size }

def setNumber (r : PageRequest) (number : Int) : PageRequest := { r with number := number }

/-- How many elements come before the page. -/
def offset (r : PageRequest) : Int := r.size * max (r.number - 1) 0

/-- How many elements a page holds at most. -/
def limit (r : PageRequest) : Int := r.size

/-- How many pages some elements fill. -/
def totalPages (r : PageRequest) (total : Int) : Except Failure Int := Quotient.ceil total r.size

/-- How many pages are filled by so many elements as a value says. -/
def pagesFor (r : PageRequest) (total : Value) : Except Failure Int :=
  match total with
  | .int n => r.totalPages n
  | .bool b => r.totalPages b.toNat
  | .float x => Quotient.ceilOfFloat x r.size
  | v => .error (.notDivisible v.qualifiedTypeName (Value.int r.size).qualifiedTypeName)

end PageRequest

def FilterArgument.spelled : FilterArgument → Except Failure String
  | .absent => Value.null.spelled
  | .filter f => f.spelled
  | .other v => v.spelled

namespace PageRequest

/-- The spelling of what may be absent. -/
def optional {α : Type} (spell : α → Except Failure String) : Option α → Except Failure String
  | none => Value.null.spelled
  | some a => spell a

def spelled (r : PageRequest) : Except Failure String := do
  let number ← IntegerText.shown r.number
  let size ← IntegerText.shown r.size
  let sort ← optional SortOrder.spelled r.sort
  let filter ← r.filter.spelled
  let fields ← optional Selection.spelled r.fields
  let distinct ← optional Selection.spelled r.distinct
  pure (Value.enclosed "Pageable("
    ["page_number=" ++ number, "page_size=" ++ size, "sort=" ++ sort, "filter=" ++ filter, "fields=" ++ fields,
      "distinct_fields=" ++ distinct] ")")

/-- The literal of a request, which is empty if the request cannot be spelled. -/
def literal (r : PageRequest) : String := r.spelled.toOption.getD ""

end PageRequest

end EntityStore

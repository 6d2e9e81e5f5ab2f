import EntityStore.Paging.PageRequest

namespace EntityStore

structure Page (α : Type) where
  content : List α
  total : Value
  number : Int
  pages : Int
  sort : Option SortOrder
  filter : FilterArgument
  fields : Option Selection
  size : Option Int

namespace Page

variable {α β : Type}

/-- A page with a place among some pages, asked for without more. -/
def plain (content : List α) (total : Value) (number pages : Int) : Page α :=
  ⟨content, total, number, pages, none, .absent, none, none⟩

/-- The only page, which holds everything. -/
def single (content : List α) (total : Value) : Page α := plain content total 1 1

/-- One of some pages, asked for by a request. -/
def requested (content : List α) (total : Value) (pages : Int) (r : PageRequest) : Page α :=
  ⟨content, total, r.number, pages, r.sort, r.filter, r.fields, some r.size⟩

def ofRequest (content : List α) (total : Value) (r : PageRequest) : Except Failure (Page α) := do
  let pages ← r.pagesFor total
  pure (requested content total pages r)

/-- The page of the elements of a value. -/
def ofValue (content total : Value) (r : Option PageRequest) : Except Failure (Page Value) :=
  match r with
  | none => do
    let items ← content.elements
    pure (single items total)
  | some r => do
    let pages ← r.pagesFor total
    let items ← content.elements
    pure (requested items total pages r)

def hasNext (p : Page α) : Bool := decide (p.number < p.pages)

def hasPrevious (p : Page α) : Bool := decide (1 < p.number)

def isFirst (p : Page α) : Bool := !p.hasPrevious

def isLast (p : Page α) : Bool := !p.hasNext

/-- The page with its elements converted, up to the first that cannot be. -/
def map (convert : α → Except Failure β) (p : Page α) : Except Failure (Page β) := do
  let content ← p.content.mapM convert
  pure ⟨content, p.total, p.number, p.pages, p.sort, p.filter, p.fields, p.size⟩

/-- No attribute of a page can be assigned to. -/
def assign (_ : Page α) (name : String) : Failure := .frozenAttribute (Quoted.text name)

def spelled (spell : α → Except Failure String) (p : Page α) : Except Failure String := do
  let content ← p.content.mapM spell
  let total ← p.total.spelled
  let number ← IntegerText.shown p.number
  let pages ← IntegerText.shown p.pages
  let sort ← PageRequest.optional SortOrder.spelled p.sort
  let filter ← p.filter.spelled
  let fields ← PageRequest.optional Selection.spelled p.fields
  let size ← PageRequest.optional IntegerText.shown p.size
  pure (Value.enclosed "Page("
    ["content=" ++ Value.tupleLiteral content, "total_elements=" ++ total, "page_number=" ++ number,
      "total_pages=" ++ pages, "sort=" ++ sort, "filter=" ++ filter, "fields=" ++ fields, "page_size=" ++ size] ")")

/-- The literal of a page, which is empty if the page cannot be spelled. -/
def literal (literalOf : α → String) (p : Page α) : String :=
  (p.spelled fun a => .ok (literalOf a)).toOption.getD ""

end Page

end EntityStore

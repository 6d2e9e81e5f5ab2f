namespace EntityStore

abbrev Dictionary (κ α : Type) := List (κ × α)

namespace Dictionary

variable {κ α : Type} [BEq κ]

def get? (key : κ) : Dictionary κ α → Option α
  | [] => none
  | (k, v) :: rest => if k == key then some v else get? key rest

/-- Sets the value under a key, in place if the key is there and at the end if it is not. -/
def insert (key : κ) (value : α) : Dictionary κ α → Dictionary κ α
  | [] => [(key, value)]
  | (k, v) :: rest => if k == key then (k, value) :: rest else (k, v) :: insert key value rest

def erase (key : κ) : Dictionary κ α → Dictionary κ α
  | [] => []
  | (k, v) :: rest => if k == key then rest else (k, v) :: erase key rest

def contains (key : κ) (d : Dictionary κ α) : Bool := (get? key d).isSome

def keys (d : Dictionary κ α) : List κ := d.map (·.1)

def values (d : Dictionary κ α) : List α := d.map (·.2)

/-- Sets all the entries of the second dictionary in the first. -/
def insertMany (d e : Dictionary κ α) : Dictionary κ α := e.foldl (fun d p => d.insert p.1 p.2) d

/-- The dictionary that results from setting the pairs one after the other. -/
def ofList (entries : List (κ × α)) : Dictionary κ α := insertMany [] entries

theorem get?_insert_self {key : κ} (h : (key == key) = true) (value : α) (d : Dictionary κ α) :
    get? key (insert key value d) = some value := by
  induction d with
  | nil => simp [insert, get?, h]
  | cons p rest ih =>
    by_cases hk : p.1 == key
    · simp [insert, get?, hk]
    · simp [insert, get?, hk, ih]

/-- Setting a key leaves the values of keys that equal nothing it equals. -/
theorem get?_insert_of_ne {key other : κ} (h : ∀ k, (k == key) = true → (k == other) = false)
    (hkey : (key == other) = false) (value : α) (d : Dictionary κ α) :
    get? other (insert key value d) = get? other d := by
  induction d with
  | nil => simp [insert, get?, hkey]
  | cons p rest ih =>
    by_cases hk : p.1 == key
    · simp [insert, get?, hk, h _ hk]
    · simp [insert, get?, hk, ih]

end Dictionary

/-- The distinct elements of a list, in the order of their first appearance. -/
def distinct {α : Type} [BEq α] : List α → List α
  | [] => []
  | x :: xs => x :: (distinct xs).filter fun y => !(x == y)

end EntityStore

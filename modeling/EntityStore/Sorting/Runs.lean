import EntityStore.Sorting.Merge

namespace EntityStore.Sorting

variable {α : Type}

/-- How many elements follow that do not fall below the one before them. -/
def risingLength (less : α → α → Bool) (x : α) : List α → Nat
  | [] => 0
  | y :: ys => if less y x then 0 else risingLength less y ys + 1

/-- How many elements follow that fall below the one before them. -/
def fallingLength (less : α → α → Bool) (x : α) : List α → Nat
  | [] => 0
  | y :: ys => if less y x then fallingLength less y ys + 1 else 0

/-- The run at the front, put in order, and what follows it. -/
def firstRun (less : α → α → Bool) : List α → List α × List α
  | [] => ([], [])
  | x :: xs =>
    let falling := fallingLength less x xs
    if falling = 0 then
      let n := risingLength less x xs
      (x :: xs.take n, xs.drop n)
    else ((x :: xs.take falling).reverse, xs.drop falling)

/-- Inserts an element into a run behind those that are not greater. -/
def insert (less : α → α → Bool) (xs : Array α) (x : α) : Array α :=
  let n := halved (fun y => !less x y) xs (xs.size + 1) 0 xs.size
  stretch xs 0 n ++ #[x] ++ stretch xs n xs.size

/-- Lists shorter than this are one run. -/
def longestInsertion : Nat := 64

/-- The least length of a run: the list is halved until it is short, and rounded up if anything was lost. -/
def leastRun : Nat → Nat → Bool → Nat
  | 0, n, odd => n + odd.toNat
  | fuel + 1, n, odd =>
    if n < longestInsertion then n + odd.toNat else leastRun fuel (n / 2) (odd || n % 2 == 1)

/-- A run, the place at which it begins, and how late it is to be merged with the next one. -/
structure Run (α : Type) where
  start : Nat
  items : Array α
  lateness : Nat

/-- In which halving of the list the middles of two neighbouring runs are told apart, in twice their
distances from the front. -/
def lateness (n : Nat) : Nat → Nat → Nat → Nat
  | 0, _, _ => 0
  | fuel + 1, first, second =>
    if n ≤ first then lateness n fuel (2 * (first - n)) (2 * (second - n)) + 1
    else if n ≤ second then 1
    else lateness n fuel (2 * first) (2 * second) + 1

/-- The runs so far, the last one first, and the patience of merges. -/
structure Pending (α : Type) where
  runs : List (Run α)
  patience : Nat

/-- Merges a run with the one behind it. -/
def joined (less : α → α → Bool) (first second : Run α) (patience : Nat) : Run α × Nat :=
  let r := merge less first.items second.items patience
  (⟨first.start, r.1, first.lateness⟩, r.2)

/-- Merges the last runs as long as they are to be merged before those of a given lateness. -/
def mergeLate (less : α → α → Bool) (limit : Nat) : Nat → Pending α → Pending α
  | 0, p => p
  | fuel + 1, p =>
    match p.runs with
    | last :: before :: rest =>
      if limit < before.lateness then
        let r := joined less before last p.patience
        mergeLate less limit fuel ⟨r.1 :: rest, r.2⟩
      else p
    | _ => p

/-- Adds a run behind the others, where the list has so many elements. -/
def addRun (less : α → α → Bool) (total : Nat) (items : Array α) (start : Nat) (p : Pending α) :
    Pending α :=
  match p.runs with
  | [] => ⟨[⟨start, items, 0⟩], p.patience⟩
  | last :: _ =>
    let first := 2 * last.start + last.items.size
    let limit := lateness total (total + 1) first (first + last.items.size + items.size)
    let q := mergeLate less limit p.runs.length p
    match q.runs with
    | [] => ⟨[⟨start, items, 0⟩], q.patience⟩
    | last :: rest => ⟨⟨start, items, 0⟩ :: { last with lateness := limit } :: rest, q.patience⟩

/-- Cuts a list into runs of a least length and adds them. -/
def addRuns (less : α → α → Bool) (total least : Nat) :
    Nat → Nat → List α → Pending α → Pending α
  | 0, _, _, p => p
  | _ + 1, _, [], p => p
  | fuel + 1, start, xs, p =>
    let (run, rest) := firstRun less xs
    let missing := least - run.length
    let items := (rest.take missing).foldl (insert less) run.toArray
    addRuns less total least fuel (start + items.size) (rest.drop missing)
      (addRun less total items start p)

/-- Merges the runs that are left, the shorter neighbour of the last but one first. -/
def mergeAll (less : α → α → Bool) : Nat → Pending α → Pending α
  | 0, p => p
  | fuel + 1, p =>
    match p.runs with
    | last :: before :: third :: rest =>
      if third.items.size < last.items.size then
        let r := joined less third before p.patience
        mergeAll less fuel ⟨last :: r.1 :: rest, r.2⟩
      else
        let r := joined less before last p.patience
        mergeAll less fuel ⟨r.1 :: third :: rest, r.2⟩
    | [last, before] =>
      let r := joined less before last p.patience
      ⟨[r.1], r.2⟩
    | _ => p

/-- The elements in order; equal ones keep their places. -/
def sort (less : α → α → Bool) (xs : List α) : List α :=
  let n := xs.length
  let pending := addRuns less n (leastRun n n false) n 0 xs ⟨[], leastStretch⟩
  match (mergeAll less n pending).runs with
  | [] => []
  | last :: _ => last.items.toList

end EntityStore.Sorting

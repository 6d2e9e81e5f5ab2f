namespace EntityStore.Sorting

variable {α : Type}

/-- Halves what lies between two places until they meet. The place is moved behind the elements for which
`before` holds. -/
def halved (before : α → Bool) (xs : Array α) : Nat → Nat → Nat → Nat
  | 0, low, _ => low
  | steps + 1, low, high =>
    if low < high then
      let middle := low + (high - low) / 2
      match xs[middle]? with
      | none => low
      | some y =>
        if before y then halved before xs steps (middle + 1) high
        else halved before xs steps low middle
    else low

/-- Doubles a step as long as the element so far away fulfils a test and the step is less than a limit.
Yields the last two steps, the later one no greater than the limit. -/
def doubled (test : Nat → Bool) (limit : Nat) : Nat → Nat → Nat → Nat × Nat
  | 0, last, step => (last, min step limit)
  | fuel + 1, last, step =>
    if step < limit && test step then doubled test limit fuel step (2 * step + 1)
    else (last, min step limit)

/-- The place behind all elements for which `before` holds, among the first `n`, looked for from the
place `hint` on. -/
def gallop (before : α → Bool) (xs : Array α) (n hint : Nat) : Nat :=
  let holdsAt (i : Nat) : Bool := match xs[i]? with
    | some y => before y
    | none => false
  if holdsAt hint then
    let (last, step) := doubled (fun k => holdsAt (hint + k)) (n - hint) n 0 1
    halved before xs (n + 1) (hint + last + 1) (hint + step)
  else
    let (last, step) := doubled (fun k => !holdsAt (hint - k)) (hint + 1) n 0 1
    halved before xs (n + 1) (hint + 1 - step) (hint - last)

/-- The place of an element in front of those that equal it. -/
def gallopLeft (less : α → α → Bool) (x : α) (xs : Array α) (n hint : Nat) : Nat :=
  gallop (fun y => less y x) xs n hint

/-- The place of an element behind those that equal it. -/
def gallopRight (less : α → α → Bool) (x : α) (xs : Array α) (n hint : Nat) : Nat :=
  gallop (fun y => !less x y) xs n hint

end EntityStore.Sorting

import EntityStore.Sorting.Gallop

namespace EntityStore.Sorting

variable {α : Type}

/-- A stretch has to be at least this long to go on with stretches. -/
def leastStretch : Nat := 7

/-- One by one, with how often each run has won in a row; or by stretches, which `patience` wins in a row
lead back to. -/
inductive Pace where
  | single (firstWon secondWon : Nat)
  | stretches (patience : Nat)

/-- A merge from the front: how much was taken of each run, the result so far, and the patience that
is handed on. -/
structure Front (α : Type) where
  first : Nat
  second : Nat
  taken : Array α
  patience : Nat

/-- The stretch of a run between two places. -/
def stretch (xs : Array α) (from' to' : Nat) : Array α := xs.extract from' to'

/-- The result once nothing is left to compare: what is left of either run is added. -/
def Front.finished (a b : Array α) (s : Front α) : Array α × Nat :=
  (s.taken ++ stretch a s.first a.size ++ stretch b s.second b.size, s.patience)

/-- The result once the first run has only its last element left, which belongs at the end. -/
def Front.lastOfFirst (a b : Array α) (s : Front α) : Array α × Nat :=
  (s.taken ++ stretch b s.second b.size ++ stretch a s.first a.size, s.patience)

/-- Merges from the front. -/
def mergeFront (less : α → α → Bool) (a b : Array α) : Nat → Pace → Front α → Array α × Nat
  | 0, _, s => s.finished a b
  | fuel + 1, .single firstWon secondWon, s =>
    match a[s.first]?, b[s.second]? with
    | some x, some y =>
      if less y x then
        let s : Front α := { s with second := s.second + 1, taken := s.taken.push y }
        if s.second = b.size then s.finished a b
        else if s.patience ≤ secondWon + 1 then
          mergeFront less a b fuel (.stretches (s.patience + 1)) s
        else mergeFront less a b fuel (.single 0 (secondWon + 1)) s
      else
        let s : Front α := { s with first := s.first + 1, taken := s.taken.push x }
        if s.first + 1 = a.size then s.lastOfFirst a b
        else if s.patience ≤ firstWon + 1 then
          mergeFront less a b fuel (.stretches (s.patience + 1)) s
        else mergeFront less a b fuel (.single (firstWon + 1) 0) s
    | _, _ => s.finished a b
  | fuel + 1, .stretches patience, s =>
    match b[s.second]? with
    | none => s.finished a b
    | some y =>
      let patience := if 1 < patience then patience - 1 else patience
      let restOfFirst := stretch a s.first a.size
      let m := gallopRight less y restOfFirst restOfFirst.size 0
      let s : Front α := ⟨s.first + m, s.second, s.taken ++ stretch restOfFirst 0 m, patience⟩
      if 0 < m && s.first + 1 = a.size then s.lastOfFirst a b
      else
        match a[s.first]? with
        | none => s.finished a b
        | some x =>
          let s : Front α := { s with second := s.second + 1, taken := s.taken.push y }
          let restOfSecond := stretch b s.second b.size
          if restOfSecond.isEmpty then s.finished a b
          else
            let n := gallopLeft less x restOfSecond restOfSecond.size 0
            let s : Front α := { s with second := s.second + n, taken := s.taken ++ stretch restOfSecond 0 n }
            if s.second = b.size then s.finished a b
            else
              let s : Front α := { s with first := s.first + 1, taken := s.taken.push x }
              if s.first + 1 = a.size then s.lastOfFirst a b
              else if leastStretch ≤ m || leastStretch ≤ n then
                mergeFront less a b fuel (.stretches patience) s
              else mergeFront less a b fuel (.single 0 0) { s with patience := patience + 1 }

/-- A merge from the back: how much is left of each run, the result so far, and the patience that
is handed on. -/
structure Back (α : Type) where
  first : Nat
  second : Nat
  taken : List α
  patience : Nat

/-- The result once nothing is left to compare. -/
def Back.finished (a b : Array α) (s : Back α) : Array α × Nat :=
  (stretch a 0 s.first ++ stretch b 0 s.second ++ s.taken.toArray, s.patience)

/-- The result once the second run has only its first element left, which belongs at the front. -/
def Back.firstOfSecond (a b : Array α) (s : Back α) : Array α × Nat :=
  (stretch b 0 s.second ++ stretch a 0 s.first ++ s.taken.toArray, s.patience)

/-- Merges from the back. -/
def mergeBack (less : α → α → Bool) (a b : Array α) : Nat → Pace → Back α → Array α × Nat
  | 0, _, s => s.finished a b
  | fuel + 1, .single firstWon secondWon, s =>
    match a[s.first - 1]?, b[s.second - 1]? with
    | some x, some y =>
      if less y x then
        let s : Back α := { s with first := s.first - 1, taken := x :: s.taken }
        if s.first = 0 then s.finished a b
        else if s.patience ≤ firstWon + 1 then
          mergeBack less a b fuel (.stretches (s.patience + 1)) s
        else mergeBack less a b fuel (.single (firstWon + 1) 0) s
      else
        let s : Back α := { s with second := s.second - 1, taken := y :: s.taken }
        if s.second = 1 then s.firstOfSecond a b
        else if s.patience ≤ secondWon + 1 then
          mergeBack less a b fuel (.stretches (s.patience + 1)) s
        else mergeBack less a b fuel (.single 0 (secondWon + 1)) s
    | _, _ => s.finished a b
  | fuel + 1, .stretches patience, s =>
    match b[s.second - 1]? with
    | none => s.finished a b
    | some y =>
      let patience := if 1 < patience then patience - 1 else patience
      let kept := gallopRight less y a s.first (s.first - 1)
      let m := s.first - kept
      let s : Back α := ⟨kept, s.second, (stretch a kept s.first).toList ++ s.taken, patience⟩
      if s.first = 0 then s.finished a b
      else
        let s : Back α := { s with second := s.second - 1, taken := y :: s.taken }
        if s.second = 1 then s.firstOfSecond a b
        else
          match a[s.first - 1]? with
          | none => s.finished a b
          | some x =>
            let kept := gallopLeft less x b s.second (s.second - 1)
            let n := s.second - kept
            let s : Back α := { s with
              second := kept, taken := (stretch b kept s.second).toList ++ s.taken }
            if 0 < n && s.second = 1 then s.firstOfSecond a b
            else if s.second = 0 then s.finished a b
            else
              let s : Back α := { s with first := s.first - 1, taken := x :: s.taken }
              if s.first = 0 then s.finished a b
              else if leastStretch ≤ m || leastStretch ≤ n then
                mergeBack less a b fuel (.stretches patience) s
              else mergeBack less a b fuel (.single 0 0) { s with patience := patience + 1 }

/-- Merges two runs of which the first begins, and the second ends, with an element that the other one
does not reach. The shorter run is the one that is gone through. -/
def mergeInner (less : α → α → Bool) (a b : Array α) (patience : Nat) : Array α × Nat :=
  let fuel := a.size + b.size + 1
  if a.size ≤ b.size then
    match b[0]? with
    | none => (a, patience)
    | some y =>
      let s : Front α := ⟨0, 1, #[y], patience⟩
      if b.size = 1 then s.finished a b
      else if a.size = 1 then s.lastOfFirst a b
      else mergeFront less a b fuel (.single 0 0) s
  else
    match a[a.size - 1]? with
    | none => (b, patience)
    | some x =>
      let s : Back α := ⟨a.size - 1, b.size, [x], patience⟩
      if s.first = 0 then s.finished a b
      else if b.size = 1 then s.firstOfSecond a b
      else mergeBack less a b fuel (.single 0 0) s

/-- Merges two runs. Elements at the front of the first that come before the second, and elements at the
back of the second that come behind the first, stay where they are. -/
def merge (less : α → α → Bool) (a b : Array α) (patience : Nat) : Array α × Nat :=
  match b[0]?, a[a.size - 1]? with
  | some y, some x =>
    let front := gallopRight less y a a.size 0
    if front = a.size then (a ++ b, patience)
    else
      let back := gallopLeft less x b b.size (b.size - 1)
      if back = 0 then (a ++ b, patience)
      else
        let r := mergeInner less (stretch a front a.size) (stretch b 0 back) patience
        (stretch a 0 front ++ r.1 ++ stretch b back b.size, r.2)
  | _, _ => (a ++ b, patience)

end EntityStore.Sorting

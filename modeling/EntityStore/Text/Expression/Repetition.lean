import EntityStore.Text.Expression.Reader

namespace EntityStore

namespace Expression

/-- Counts from here on are too large. -/
def repetitionLimit : Nat := 4294967295

/-- How often something is repeated, if what comes next says so. A brace that opens no count is nothing
but a brace. -/
def count (t : Token) : Reading (Option (Nat × Option Nat)) := do
  match t with
  | .char '?' => pure (some (0, some 1))
  | .char '*' => pure (some (0, none))
  | .char '+' => pure (some (1, none))
  | _ =>
    let before ← get
    if (← peek) == some (.char '\x7d') then pure none
    else
      let all := before.rest.length
      let low ← takeWhile Char.isDigit all
      let comma ← accept ','
      let high ← if comma then takeWhile Char.isDigit all else pure low
      if ← accept '\x7d' then
        let least := numeral 10 low
        let most := if high.isEmpty then none else some (numeral 10 high)
        if repetitionLimit ≤ least || most.any fun n => decide (repetitionLimit ≤ n) then
          throw .repetitionTooLarge
        else if most.any fun n => decide (n < least) then
          let after ← get
          refuse "min repeat greater than max repeat" (after.place - before.place)
        else pure (some (least, most))
      else
        set before
        pure none

/-- How greedy a repetition is. -/
def greed : Reading Greed := do
  if ← accept '?' then pure .fewest
  else if ← accept '+' then pure .mostOnly
  else pure .most

/-- Puts a repetition in the place of the last of some expressions. -/
def repeatLast (start : Nat) (counts : Nat × Option Nat) (done : List Expression) :
    Reading (List Expression) := do
  let place := (← get).place
  match done with
  | [] | .anchor _ :: _ => refuse "nothing to repeat" (place - start)
  | .repeated _ _ _ _ :: _ => refuse "multiple repeat" (place - start)
  | e :: rest =>
    let g ← greed
    pure (.repeated g counts.1 counts.2 e :: rest)

end Expression

end EntityStore

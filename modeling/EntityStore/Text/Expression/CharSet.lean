import EntityStore.Text.Expression.Escape

namespace EntityStore

namespace Expression

/-- An item of a set. -/
def setItem : Token → Reading CharItem
  | .char c => pure (.one c)
  | .escaped c => setEscape c

/-- The range between two items, of which both have to be single characters. -/
def range (firstText lastText : String) : CharItem → CharItem → Reading CharItem
  | .one first, .one last =>
    if last < first then
      refuse s!"bad character range {firstText}-{lastText}" (firstText.length + 1 + lastText.length)
    else pure (.range first last)
  | _, _ =>
    refuse s!"bad character range {firstText}-{lastText}" (firstText.length + 1 + lastText.length)

/-- The items of a set up to its end. `start` is the place at which the set began. -/
def setItems (start : Nat) : Nat → List CharItem → Reading (List CharItem)
  | 0, items => pure items
  | fuel + 1, items => do
    let place := (← get).place
    match ← next with
    | none => refuse "unterminated character set" (place - start)
    | some t =>
      if t == .char ']' && !items.isEmpty then pure items
      else
        let first ← setItem t
        if ← accept '-' then
          let place := (← get).place
          match ← next with
          | none => refuse "unterminated character set" (place - start)
          | some u =>
            if u == .char ']' then pure (items ++ [first, .one '-'])
            else
              let last ← setItem u
              let item ← range t.text u.text first last
              setItems start fuel (items ++ [item])
        else setItems start fuel (items ++ [first])

end Expression

end EntityStore

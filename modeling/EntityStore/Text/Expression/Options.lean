import EntityStore.Text.Expression.Reader

namespace EntityStore

namespace Expression

/-- What options are written as. -/
def optionOf? : Char → Option ExpressionOptions
  | 'i' => some ⟨true, false, false, false, false⟩
  | 'm' => some ⟨false, true, false, false, false⟩
  | 's' => some ⟨false, false, true, false, false⟩
  | 'x' => some ⟨false, false, false, true, false⟩
  | 'a' => some ⟨false, false, false, false, true⟩
  | 'u' => some .none
  | _ => none

/-- Whether a letter writes an option, be it one that texts do not have. -/
def writesOption (c : Char) : Bool := c == 'L' || (optionOf? c).isSome

/-- Whether a letter writes an option that says which characters there are. -/
def choosesCharacters (c : Char) : Bool := c == 'a' || c == 'u' || c == 'L'

/-- The options that letters write. -/
def optionsOf (letters : List Char) : ExpressionOptions :=
  letters.foldl (fun options c => options.union ((optionOf? c).getD .none)) .none

/-- Refuses a letter that writes no option. -/
def refuseLetter {α : Type} (expected : String) (c : Char) : Reading α :=
  refuse (if c.isAlpha || decide (127 < c.toNat) then "unknown flag" else expected) 1

/-- Letters of options, of which `c` is the next, and the character behind them. -/
def optionLetters (expected : String) (closing : Char → Bool) (check : List Char → Char → Reading Unit) :
    Nat → List Char → Char → Reading (List Char × Char)
  | 0, letters, c => pure (letters, c)
  | fuel + 1, letters, c => do
    check letters c
    match ← next with
    | none => refuse expected 0
    | some (.escaped _) => refuse expected 2
    | some (.char d) =>
      if closing d then pure (c :: letters, d)
      else if writesOption d then optionLetters expected closing check fuel (c :: letters) d
      else refuseLetter expected d

/-- Refuses an option that cannot be added to others. -/
def checkAdded (letters : List Char) (c : Char) : Reading Unit := do
  if c == 'L' then refuse "bad inline flags: cannot use 'L' flag with a str pattern" 0
  else if choosesCharacters c && letters.any fun d => choosesCharacters d && d != c then
    refuse "bad inline flags: flags 'a', 'u' and 'L' are incompatible" 0

/-- Refuses an option that cannot be dropped. -/
def checkDropped (_ : List Char) (c : Char) : Reading Unit :=
  if choosesCharacters c then
    refuse "bad inline flags: cannot turn off flags 'a', 'u' and 'L'" 0
  else pure ()

/-- The letters of options that are dropped. -/
def droppedLetters (fuel : Nat) : Reading (List Char) := do
  match ← next with
  | none => refuse "missing flag" 0
  | some (.escaped _) => refuse "missing flag" 2
  | some (.char c) =>
    if writesOption c then
      let r ← optionLetters "missing :" (· == ':') checkDropped fuel [] c
      pure r.1
    else refuseLetter "missing flag" c

/-- What stands behind the opening of a group that begins with options: letters of options for the whole
expression, or of those to add and to drop within the group. -/
def optionGroup (fuel : Nat) (c : Char) : Reading (List Char × Option (List Char)) := do
  let ends (c : Char) : Bool := c == ')' || c == '-' || c == ':'
  let added ←
    if c == '-' then pure ([], '-') else optionLetters "missing -, : or )" ends checkAdded fuel [] c
  if added.2 == ')' then pure (added.1, none)
  else if added.2 == ':' then pure (added.1, some [])
  else
    let dropped ← droppedLetters fuel
    if added.1.any dropped.contains then refuse "bad inline flags: flag turned on and off" 1
    else pure (added.1, some dropped)

end Expression

end EntityStore

import EntityStore.Number.IntegerText
import EntityStore.Text.Expression.Basic
import EntityStore.Text.Expression.Escape
import EntityStore.Text.Expression.Options

namespace EntityStore

namespace Expression

/-- The least and the greatest number of characters that an expression goes over. -/
def width : Expression → Nat × Option Nat
  | .nothing | .anchor _ | .around _ _ _ => (0, some 0)
  | .any _ | .chars _ _ => (1, some 1)
  | .sequence first second =>
    (first.width.1 + second.width.1,
      first.width.2.bind fun m => second.width.2.map fun n => m + n)
  | .choice first second | .ifMatched _ first second =>
    (min first.width.1 second.width.1,
      first.width.2.bind fun m => second.width.2.map fun n => max m n)
  | .repeated _ least most e =>
    (least * e.width.1,
      if e.width.2 == some 0 then some 0
      else most.bind fun m => e.width.2.map fun n => m * n)
  | .captured _ e | .once e => e.width
  | .again _ least most => (least, most)

/-- Whether all that is looked behind for in an expression is of one length. -/
def looksBehindEvenly : Expression → Bool
  | .around ahead _ e => (ahead || some e.width.1 == e.width.2) && looksBehindEvenly e
  | .sequence first second | .choice first second | .ifMatched _ first second =>
    looksBehindEvenly first && looksBehindEvenly second
  | .repeated _ _ _ e | .captured _ e | .once e => looksBehindEvenly e
  | _ => true

end Expression

namespace Expression

/-- Takes the rest of a remark in parentheses. -/
def remark (start : Nat) : Nat → Reading Unit
  | 0 => pure ()
  | fuel + 1 => do
    match ← peek with
    | none =>
      let place := (← get).place
      refuse "missing ), unterminated comment" (place - start)
    | some t =>
      let _ ← next
      if t == .char ')' then pure () else remark start fuel

/-- Opens the next group, under a name if it has one. -/
def openGroup (called : Option String) : Reading Nat := do
  let r ← get
  let group := r.groups + 1
  match called with
  | none =>
    set { r with groups := group }
    pure group
  | some s =>
    match r.names.lookup s with
    | some before =>
      refuse s!"redefinition of group name {Quoted.text s} as group {group}; was group {before}"
        (s.length + 1)
    | none =>
      set { r with groups := group, names := (s, group) :: r.names }
      pure group

/-- Closes a group around an expression. -/
def closeGroup (group : Nat) (e : Expression) : Reading Unit :=
  modify fun r => { r with widths := (group, e.width) :: r.widths }

/-- Takes the parenthesis that ends a group. -/
def closing (start : Nat) : Reading Unit := do
  if ← accept ')' then pure ()
  else
    let place := (← get).place
    refuse "missing ), unterminated subpattern" (place - start)

/-- What the opening of a group says about it. -/
inductive Opening where
  | group (called : Option String)
  | plain
  | once
  | around (ahead holds : Bool)
  | options (added dropped : List Char)
  | overall (letters : List Char)
  | remark
  | sameAs (e : Expression)
  | condition (group : Nat)

/-- What stands behind the opening of a group and a `P`: a name to give, or the name of a group that is
matched again. -/
def namedOpening (fuel : Nat) : Reading Opening := do
  match ← next with
  | none => refuse "unexpected end of pattern" 0
  | some (.char '<') =>
    let called ← name '>' fuel
    pure (.group (some called))
  | some (.char '=') =>
    let called ← name ')' fuel
    let r ← get
    match r.names.lookup called with
    | some group =>
      let e ← held group (called.length + 1)
      pure (.sameAs e)
    | none => refuseName "unknown group name" called
  | some t => refuse s!"unknown extension ?P{t.text}" (t.length + 2)

/-- What a group looks behind for. -/
def behindOpening : Reading Opening := do
  match ← next with
  | none => refuse "unexpected end of pattern" 0
  | some (.char '=') => pure (.around false true)
  | some (.char '!') => pure (.around false false)
  | some t => refuse s!"unknown extension ?<{t.text}" (t.length + 2)

/-- There are never as many groups as this. -/
def groupLimit : Nat := 1073741823

/-- The group whose number a condition is on. -/
def conditionNumber (s : String) : Reading Nat := do
  match IntegerText.read s with
  | .error _ => refuseName "bad character in group name" s
  | .ok n =>
    if n < 0 then refuseName "bad character in group name" s
    else if n = 0 then refuse "bad group number" (s.length + 1)
    else if groupLimit ≤ n.toNat then refuse s!"invalid group reference {n}" (s.length + 1)
    else
      modify fun r =>
        if (r.conditions.lookup n.toNat).isSome then r
        else { r with conditions := r.conditions ++ [(n.toNat, r.place - s.length - 1)] }
      pure n.toNat

/-- What stands behind the opening of a condition: the group on which it is. -/
def conditionOpening (fuel : Nat) : Reading Opening := do
  let s ← nameUpTo ')' fuel ""
  let group ←
    if isName s then
      match (← get).names.lookup s with
      | some group => pure group
      | none => refuseName "unknown group name" s
    else conditionNumber s
  checkBehind group
  pure (.condition group)

/-- What the opening of a group says, behind its parenthesis. -/
def opening (start fuel : Nat) : Reading Opening := do
  if !(← accept '?') then pure (.group none)
  else
    match ← next with
    | none => refuse "unexpected end of pattern" 0
    | some (.char ':') => pure .plain
    | some (.char '>') => pure .once
    | some (.char '=') => pure (.around true true)
    | some (.char '!') => pure (.around true false)
    | some (.char '<') => behindOpening
    | some (.char 'P') => namedOpening fuel
    | some (.char '(') => conditionOpening fuel
    | some (.char '#') =>
      remark start fuel
      pure .remark
    | some t =>
      match t with
      | .escaped _ => refuse s!"unknown extension ?{t.text}" (t.length + 1)
      | .char c =>
        if c == '-' || writesOption c then
          let r ← optionGroup fuel c
          match r.2 with
          | none => pure (.overall r.1)
          | some dropped => pure (.options r.1 dropped)
        else refuse s!"unknown extension ?{t.text}" 2

/-- Puts options for the whole expression in force. They have to stand at its very beginning. -/
def setOverall (start : Nat) (atBeginning : Bool) (letters : List Char) : Reading Unit := do
  let r ← get
  let options := optionsOf letters
  if !atBeginning then
    refuse "global flags not at the start of the expression" (r.place - start)
  else if options.overlooksBlanks && !r.options.overlooksBlanks then throw .overlooksBlanks
  else set { r with options := r.options.union options, isWide := r.isWide || letters.contains 'u' }

/-- Reads with other options in force, and puts those of before in force again. -/
def withOptions {α : Type} (options : ExpressionOptions) (read : Reading α) : Reading α := do
  let before := (← get).options
  modify fun r => { r with options := options }
  let a ← read
  modify fun r => { r with options := before }
  pure a

/-- Reads what is looked behind for; it refers only to groups that were opened before it. -/
def lookingBehind {α : Type} (read : Reading α) : Reading α := do
  let before := (← get).groupsBehind
  modify fun r => { r with groupsBehind := some (before.getD r.groups) }
  let a ← read
  modify fun r => { r with groupsBehind := before }
  pure a

/-- The second branch of a condition is the last. -/
def checkLastBranch : Reading Unit := do
  if (← peek) == some (.char '|') then refuse "conditional backref with more than two branches" 0

end Expression

end EntityStore

import EntityStore.Text.Expression.CharSet
import EntityStore.Text.Expression.Group
import EntityStore.Text.Expression.Repetition

namespace EntityStore

namespace Expression

/-- Takes the rest of a remark that ends with its line. -/
def lineRemark : Nat → Reading Unit
  | 0 => pure ()
  | fuel + 1 => do
    match ← next with
    | none => pure ()
    | some t => if t == .char '\n' then pure () else lineRemark fuel

/-- The expressions one behind the other; the last one comes first. -/
def sequenceOf : List Expression → Expression
  | [] => .nothing
  | e :: rest => rest.foldl (fun acc d => .sequence d acc) e

mutual

/-- Reads the alternatives of an expression, up to a closing parenthesis or the end. -/
def alternatives (fuel : Nat) (nested : Bool) (isFirst : Bool) : Reading Expression :=
  match fuel with
  | 0 => pure .nothing
  | fuel + 1 => do
    let first ← items fuel nested (!nested && isFirst) []
    if ← accept '|' then
      let others ← alternatives fuel nested false
      pure (.choice first others)
    else pure first
termination_by structural fuel

/-- Reads the expressions that stand one behind the other; `done` holds those before, the last one
first. -/
def items (fuel : Nat) (nested : Bool) (isFirst : Bool) (done : List Expression) : Reading Expression :=
  match fuel with
  | 0 => pure (sequenceOf done)
  | fuel + 1 => do
    let start := (← get).place
    let options := (← get).options
    match ← peek with
    | none | some (.char '|') | some (.char ')') => pure (sequenceOf done)
    | some t =>
      let _ ← next
      match t with
      | .escaped c =>
        let e ← escape c
        items fuel nested isFirst (e :: done)
      | .char '[' =>
        let negated ← accept '^'
        let set ← setItems start fuel []
        items fuel nested isFirst (.chars (!negated) set :: done)
      | .char '.' => items fuel nested isFirst (.any options.dotMeansAll :: done)
      | .char '^' =>
        items fuel nested isFirst
          (.anchor (if options.bindsToLines then .lineStart else .start) :: done)
      | .char '$' =>
        items fuel nested isFirst
          (.anchor (if options.bindsToLines then .lineFinish else .finish) :: done)
      | .char '(' =>
        let done ← groupOf fuel start (isFirst && done.isEmpty) done
        items fuel nested isFirst done
      | .char c =>
        if options.overlooksBlanks && (c == ' ' || (decide (9 ≤ c.toNat) && decide (c.toNat ≤ 13))) then
          items fuel nested isFirst done
        else if options.overlooksBlanks && c == '#' then
          lineRemark fuel
          items fuel nested isFirst done
        else if c == '?' || c == '*' || c == '+' || c == '\x7b' then
          match ← count t with
          | none => items fuel nested isFirst (literal c :: done)
          | some counts =>
            let done ← repeatLast start counts done
            items fuel nested isFirst done
        else items fuel nested isFirst (literal c :: done)
termination_by structural fuel

/-- Reads a group behind its opening parenthesis, and puts what it matches before what is done. -/
def groupOf (fuel : Nat) (start : Nat) (atBeginning : Bool) (done : List Expression) :
    Reading (List Expression) :=
  match fuel with
  | 0 => pure done
  | fuel + 1 => do
    let options := (← get).options
    match ← opening start fuel with
    | .remark => pure done
    | .sameAs e => pure (e :: done)
    | .overall letters =>
      setOverall start atBeginning letters
      pure done
    | .group called =>
      let group ← openGroup called
      let e ← alternatives fuel true false
      closing start
      closeGroup group e
      pure (.captured group e :: done)
    | .plain =>
      let e ← alternatives fuel true false
      closing start
      pure (.sequence e .nothing :: done)
    | .once =>
      let e ← alternatives fuel true false
      closing start
      pure (.once e :: done)
    | .around true holds =>
      let e ← alternatives fuel true false
      closing start
      pure (.around true holds e :: done)
    | .around false holds =>
      let e ← lookingBehind (alternatives fuel true false)
      closing start
      pure (.around false holds e :: done)
    | .options added dropped =>
      let inside := (options.union (optionsOf added)).without (optionsOf dropped)
      let e ← withOptions inside (alternatives fuel true false)
      closing start
      pure (.sequence e .nothing :: done)
    | .condition group =>
      let yes ← items fuel true false []
      if ← accept '|' then
        let no ← items fuel true false []
        checkLastBranch
        closing start
        pure (.ifMatched group yes no :: done)
      else
        closing start
        pure (.ifMatched group yes .nothing :: done)
termination_by structural fuel

end

/-- What reading an expression yields: its tree, how many groups it has, and its options. -/
structure Outcome where
  expression : Expression
  groups : Nat
  options : ExpressionOptions

/-- Reads a text as an expression under some options. -/
def readWith (options : ExpressionOptions) (s : String) : Except Fault Outcome := do
  let r := tokens 0 s.toList
  if r.1.isEmpty then
    match r.2 with
    | some place => throw (.wrong "bad escape (end of pattern)" place)
    | none => pure ()
  let start : Reader := ⟨r.1, 0, r.2, 0, none, [], [], [], options, false⟩
  let (e, final) ← (alternatives (4 * r.1.length + 4) false true).run start
  if final.isWide && final.options.asciiOnly then throw .contraryOptions
  if !final.rest.isEmpty then throw (.wrong "unbalanced parenthesis" final.place)
  match final.conditions.find? fun c => decide (final.groups < c.1) with
  | some (group, place) => throw (.wrong s!"invalid group reference {group}" place)
  | none => pure ()
  if e.looksBehindEvenly then pure ⟨e, final.groups, final.options⟩ else throw .variableWidth

/-- Where a place is, if the text has several lines. -/
def lineNote (s : String) (place : Nat) : String :=
  if s.toList.contains '\n' then
    let before := s.toList.take place
    let line := (before.filter (· == '\n')).length + 1
    let column := (before.reverse.takeWhile (· != '\n')).length + 1
    s!" (line {line}, column {column})"
  else ""

/-- Reads a text as an expression, or tells what is wrong with it. -/
def read (options : ExpressionOptions) (s : String) : Except Failure Outcome :=
  let outcome := match readWith options s with
    | .error .overlooksBlanks =>
      readWith (options.union ⟨false, false, false, true, false⟩) s
    | r => r
  match outcome with
  | .ok o => .ok o
  | .error .overlooksBlanks | .error .variableWidth =>
    .error (.unreadablePattern "look-behind requires fixed-width pattern")
  | .error .repetitionTooLarge => .error .repetitionTooLarge
  | .error .contraryOptions => .error .contraryOptions
  | .error (.wrong reason place) =>
    .error (.unreadablePattern s!"{reason} at position {place}{lineNote s place}")

end Expression

end EntityStore

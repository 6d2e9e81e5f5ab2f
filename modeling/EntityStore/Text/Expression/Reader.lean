import EntityStore.Text.Expression.Basic
import EntityStore.Text.Hex
import EntityStore.Text.Quoted

namespace EntityStore

namespace Expression

/-- A character, or one that stands behind a backslash. -/
inductive Token where
  | char (c : Char)
  | escaped (c : Char)
  deriving DecidableEq, Repr

namespace Token

def text : Token → String
  | .char c => c.toString
  | .escaped c => String.ofList ['\\', c]

def length : Token → Nat
  | .char _ => 1
  | .escaped _ => 2

end Token

/-- What is wrong with an expression, and at which character. The blanks of an expression turn out to be
overlooked only when an option in it says so; then it is read anew. What is looked behind for has to be
of one length. -/
inductive Fault where
  | wrong (reason : String) (place : Nat)
  | variableWidth
  | overlooksBlanks
  | repetitionTooLarge
  | contraryOptions
  deriving DecidableEq, Repr

/-- What is still to be read: tokens, the place of the first, and the place of a backslash at the very end.
Beside it what is known of the groups so far: how many were opened, and the last of them that may be
referred to by what is looked behind for; their names; the least and the greatest length of what each of
the closed ones holds; and the places of conditions on groups. At last the options that are in force, and
whether characters outside the ASCII range were asked for. -/
structure Reader where
  rest : List Token
  place : Nat
  dangling : Option Nat
  groups : Nat
  groupsBehind : Option Nat
  names : List (String × Nat)
  widths : List (Nat × Nat × Option Nat)
  conditions : List (Nat × Nat)
  options : ExpressionOptions
  isWide : Bool

abbrev Reading := StateT Reader (Except Fault)

/-- The tokens of a text, and the place of a backslash that nothing follows. -/
def tokens : Nat → List Char → List Token × Option Nat
  | _, [] => ([], none)
  | place, '\\' :: rest =>
    match rest with
    | [] => ([], some place)
    | c :: rest =>
      let r := tokens (place + 2) rest
      (.escaped c :: r.1, r.2)
  | place, c :: rest =>
    let r := tokens (place + 1) rest
    (.char c :: r.1, r.2)

/-- Refuses to go on; the fault lies so many characters back. -/
def refuse {α : Type} (reason : String) (back : Nat) : Reading α := do
  let r ← get
  throw (.wrong reason (r.place - back))

def peek : Reading (Option Token) := do
  let r ← get
  pure r.rest.head?

/-- Takes the next token. A backslash at the very end is refused as soon as it comes next. -/
def next : Reading (Option Token) := do
  let r ← get
  match r.rest with
  | [] => pure none
  | t :: rest =>
    set { r with rest := rest, place := r.place + t.length }
    if rest.isEmpty then
      match r.dangling with
      | some place => throw (.wrong "bad escape (end of pattern)" place)
      | none => pure (some t)
    else pure (some t)

def accept (c : Char) : Reading Bool := do
  if (← peek) == some (.char c) then
    let _ ← next
    pure true
  else pure false

/-- Takes characters that fulfil a test, at most so many. -/
def takeWhile (test : Char → Bool) : Nat → Reading (List Char)
  | 0 => pure []
  | n + 1 => do
    match ← peek with
    | some (.char c) =>
      if test c then
        let _ ← next
        let cs ← takeWhile test n
        pure (c :: cs)
      else pure []
    | _ => pure []

/-- Takes a name up to a closing character. `done` is the part of it that was taken before. -/
def nameUpTo (closing : Char) : Nat → String → Reading String
  | 0, done => pure done
  | n + 1, done => do
    match ← next with
    | none =>
      if done = "" then refuse "missing group name" 0
      else refuse s!"missing {closing}, unterminated name" done.length
    | some t =>
      if t == .char closing then
        if done = "" then refuse "missing group name" 1 else pure done
      else nameUpTo closing n (done ++ t.text)

/-- Whether a character can stand in a name. All those outside the ASCII range can. -/
def isNameChar (c : Char) : Bool := c.isAlphanum || c == '_' || decide (127 < c.toNat)

/-- Whether a text is a name of a group: it does not begin with a digit. -/
def isName (s : String) : Bool :=
  s.toList.all isNameChar && (s.toList.head?.any fun c => !c.isDigit)

/-- Refuses a name at which a group cannot be found. -/
def refuseName {α : Type} (reason s : String) : Reading α :=
  refuse s!"{reason} {Quoted.text s}" (s.length + 1)

/-- Takes the name of a group. -/
def name (closing : Char) (fuel : Nat) : Reading String := do
  let s ← nameUpTo closing fuel ""
  if isName s then pure s else refuseName "bad character in group name" s

def isHexDigit (c : Char) : Bool := (Hex.value? c).isSome

def isOctalDigit (c : Char) : Bool := decide ('0' ≤ c) && decide (c ≤ '7')

/-- The number that digits write in a base. -/
def numeral (base : Nat) (cs : List Char) : Nat :=
  cs.foldl (fun n c => n * base + (Hex.value? c).getD 0) 0

end Expression

end EntityStore

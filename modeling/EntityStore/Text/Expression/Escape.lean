import EntityStore.Text.Expression.Reader

namespace EntityStore

namespace Expression

def literal (c : Char) : Expression := .chars true [.one c]

/-- The character of an escape that has so many hexadecimal digits. -/
def hexEscape (letter : Char) (digits : Nat) : Reading Char := do
  let cs ← takeWhile isHexDigit digits
  let shown := String.ofList ('\\' :: letter :: cs)
  if cs.length < digits then refuse s!"incomplete escape {shown}" (cs.length + 2)
  else if 0x10ffff < numeral 16 cs then refuse s!"bad escape {shown}" (cs.length + 2)
  else pure (Char.ofNat (numeral 16 cs))

/-- The characters for which an escape stands that names a control character. -/
def controls : List (Char × Char) :=
  [('a', '\x07'), ('f', '\x0c'), ('n', '\n'), ('r', '\r'), ('t', '\t'), ('v', '\x0b'), ('\\', '\\')]

/-- The kinds of characters for which an escape stands. -/
def kinds : List (Char × CharItem) :=
  [('d', .kind .digit true), ('D', .kind .digit false), ('s', .kind .blank true),
   ('S', .kind .blank false), ('w', .kind .word true), ('W', .kind .word false)]

/-- The places for which an escape stands. -/
def anchors : List (Char × Anchor) :=
  [('A', .start), ('b', .wordEdge true), ('B', .wordEdge false), ('Z', .veryEnd)]

def isAsciiLetter (c : Char) : Bool := c.isAlpha

/-- The character of an escape that is neither a kind nor a place. -/
def escapedChar (c : Char) : Reading Char := do
  match controls.lookup c with
  | some d => pure d
  | none =>
    match c with
    | 'x' => hexEscape c 2
    | 'u' => hexEscape c 4
    | 'U' => hexEscape c 8
    | _ =>
      if isAsciiLetter c then refuse (String.ofList ("bad escape \\".toList ++ [c])) 2
      else pure c

/-- The character of an octal escape. -/
def octal (cs : List Char) : Reading Char := do
  if 255 < numeral 8 cs then
    refuse (String.ofList ("octal escape value \\".toList ++ cs ++ " outside of range 0-0o377".toList))
      (cs.length + 1)
  else pure (Char.ofNat (numeral 8 cs))

/-- What is looked behind for refers to no group that is opened in it. -/
def checkBehind (group : Nat) : Reading Unit := do
  let r ← get
  match r.groupsBehind with
  | none => pure ()
  | some last =>
    if (r.widths.lookup group).isNone then refuse "cannot refer to an open group" 0
    else if last < group then
      refuse "cannot refer to group defined in the same lookbehind subpattern" 0

/-- What a closed group holds; the reference to it has so many characters. -/
def held (group length : Nat) : Reading Expression := do
  let r ← get
  match r.widths.lookup group with
  | none => refuse "cannot refer to an open group" length
  | some (least, most) =>
    checkBehind group
    pure (.again group least most)

/-- What a group holds that a number refers to. -/
def reference (digits : List Char) : Reading Expression := do
  let group := numeral 10 digits
  let r ← get
  if group = 0 || r.groups < group then refuse s!"invalid group reference {group}" digits.length
  else held group (digits.length + 1)

/-- A digit behind a backslash: a character by its octal number, or a reference to a group. -/
def digitEscape (c : Char) : Reading Expression := do
  if c == '0' then
    let cs ← takeWhile isOctalDigit 2
    let d ← octal (c :: cs)
    pure (literal d)
  else
    let second ← takeWhile Char.isDigit 1
    let third ←
      if isOctalDigit c && !second.isEmpty && second.all isOctalDigit then takeWhile isOctalDigit 1
      else pure []
    let digits := c :: second ++ third
    if third.isEmpty then reference digits
    else
      let d ← octal digits
      pure (literal d)

def escape (c : Char) : Reading Expression := do
  match kinds.lookup c, anchors.lookup c with
  | some item, _ => pure (.chars true [item])
  | none, some a => pure (.anchor a)
  | none, none =>
    if c.isDigit then digitEscape c
    else
      let d ← escapedChar c
      pure (literal d)

/-- An escape in a set; there a letter can stand for the backspace. -/
def setEscape (c : Char) : Reading CharItem := do
  match kinds.lookup c with
  | some item => pure item
  | none =>
    if c == 'b' then pure (.one '\x08')
    else if isOctalDigit c then
      let cs ← takeWhile isOctalDigit 2
      let d ← octal (c :: cs)
      pure (.one d)
    else if c.isDigit then refuse (String.ofList ("bad escape \\".toList ++ [c])) 2
    else
      let d ← escapedChar c
      pure (.one d)

end Expression

end EntityStore

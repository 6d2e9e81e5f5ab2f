import EntityStore.Text.Expression.Basic
import EntityStore.Text.Expression.Reading

namespace EntityStore

namespace CharKind

/-- Whether a character is of a kind, by the ASCII table. -/
def contains (c : Char) : CharKind → Bool
  | .digit => c.isDigit
  | .blank => c == ' ' || (decide (9 ≤ c.toNat) && decide (c.toNat ≤ 13))
      || (decide (28 ≤ c.toNat) && decide (c.toNat ≤ 31))
  | .word => c.isAlphanum || c == '_'

end CharKind

def CharItem.contains (c : Char) : CharItem → Bool
  | .one d => c == d
  | .range first last => decide (first ≤ c) && decide (c ≤ last)
  | .kind k holds => k.contains c == holds

namespace Expression

/-- A place in a text, and from where to where each group matched last. -/
structure Progress where
  place : Nat
  groups : List (Nat × Nat × Nat)
  deriving DecidableEq, Repr

namespace Progress

/-- From where to where a group matched. -/
def group? (n : Nat) (p : Progress) : Option (Nat × Nat) :=
  (p.groups.find? fun g => g.1 == n).map (·.2)

end Progress

def part (text : List Char) (first last : Nat) : List Char := (text.take last).drop first

/-- Whether a character of a word stands at a place. -/
def isWordAt (text : List Char) (place : Nat) : Bool :=
  match text[place]? with
  | some c => CharKind.word.contains c
  | none => false

/-- Whether an anchor holds at a place. An empty text has no places for the edges of words, nor any that
are none. -/
def anchorHolds (text : List Char) (place : Nat) : Anchor → Bool
  | .start => place == 0
  | .lineStart => place == 0 || text[place - 1]? == some '\n'
  | .finish => place == text.length || (place + 1 == text.length && text[place]? == some '\n')
  | .lineFinish => place == text.length || text[place]? == some '\n'
  | .veryEnd => place == text.length
  | .wordEdge holds =>
    !text.isEmpty && ((0 < place && isWordAt text (place - 1)) != isWordAt text place) == holds

/-- Goes over one character that fulfils a test. -/
def stepOver (text : List Char) (test : Char → Bool) (p : Progress) : List Progress :=
  match text[p.place]? with
  | some c => if test c then [{ p with place := p.place + 1 }] else []
  | none => []

/-- Repeats a step as often as it may be repeated. Beyond the least number no repetition begins where the
one before began; `last` is that place. -/
def repetitions (step : Progress → List Progress) (fewestFirst : Bool) :
    Nat → Nat → Option Nat → Option Nat → Progress → List Progress
  | 0, _, _, _, p => [p]
  | fuel + 1, least, most, last, p =>
    let begun := if 0 < least then last else some p.place
    let further :=
      if most == some 0 || (least == 0 && last == some p.place) then []
      else (step p).flatMap
        (repetitions step fewestFirst fuel (least - 1) (most.map (· - 1)) begun)
    if 0 < least then further
    else if fewestFirst then p :: further
    else further ++ [p]

/-- All the ways in which an expression matches from a place on, the preferred ones first. -/
def ends (text : List Char) : Expression → Progress → List Progress
  | .nothing, p => [p]
  | .any acrossLines, p => stepOver text (fun c => acrossLines || c != '\n') p
  | .chars holds items, p => stepOver text (fun c => items.any (·.contains c) == holds) p
  | .sequence first second, p => (ends text first p).flatMap (ends text second)
  | .choice first second, p => ends text first p ++ ends text second p
  | .repeated greed least most e, p =>
    let all := repetitions (ends text e) (greed == .fewest) (least + text.length + 2) least most none p
    if greed == .mostOnly then all.take 1 else all
  | .captured group e, p =>
    (ends text e p).map fun q =>
      { q with groups := (group, p.place, q.place) :: q.groups.filter fun g => g.1 != group }
  | .anchor a, p => if anchorHolds text p.place a then [p] else []
  | .around true holds e, p =>
    match ends text e p with
    | q :: _ => if holds then [{ q with place := p.place }] else []
    | [] => if holds then [] else [p]
  | .around false holds e, p =>
    let before := (List.range (p.place + 1)).flatMap fun n =>
      (ends text e { p with place := p.place - n }).filter fun q => q.place == p.place
    match before with
    | q :: _ => if holds then [q] else []
    | [] => if holds then [] else [p]
  | .once e, p => (ends text e p).take 1
  | .ifMatched group yes no, p =>
    if (p.group? group).isSome then ends text yes p else ends text no p
  | .again group _ _, p =>
    match p.group? group with
    | none => []
    | some (first, last) =>
      let said := part text first last
      if part text p.place (p.place + said.length) == said then
        [{ p with place := p.place + said.length }]
      else []

/-- The first match at one of some places. One at `barred` has to get on from there. -/
def firstMatch? (text : List Char) (e : Expression) (barred : Option Nat) :
    List Nat → Option (Nat × Progress)
  | [] => none
  | place :: rest =>
    match (ends text e ⟨place, []⟩).find? fun q => !(barred == some place && q.place == place) with
    | some q => some (place, q)
    | none => firstMatch? text e barred rest

/-- The matches in a text from a place on, one behind the other. No empty match follows an empty one at
the same place. -/
def matchesFrom (text : List Char) (e : Expression) :
    Nat → Nat → Option Nat → List (Nat × Progress)
  | 0, _, _ => []
  | fuel + 1, place, barred =>
    let places := (List.range (text.length + 1)).drop place
    match firstMatch? text e barred places with
    | none => []
    | some (first, q) =>
      (first, q) :: matchesFrom text e fuel q.place (if q.place = first then some first else none)

/-- The parts of a text before, between and behind some matches. What the groups of a match hold stands
after the part before it; a group that took no part holds nothing. -/
def splitAt (text : List Char) (groups : Nat) : Nat → List (Nat × Progress) → List (Option String)
  | place, [] => [some (String.ofList (text.drop place))]
  | place, (first, q) :: rest =>
    let held := (List.range groups).map fun n =>
      (q.group? (n + 1)).map fun g => String.ofList (part text g.1 g.2)
    some (String.ofList (part text place first)) :: held ++ splitAt text groups q.place rest

/-- Splits a text at the matches of an expression with a number of groups. -/
def split (e : Expression) (groups : Nat) (s : String) : List (Option String) :=
  let text := s.toList
  splitAt text groups 0 (matchesFrom text e (2 * text.length + 2) 0 none)

end Expression

structure Pattern where
  source : String
  options : ExpressionOptions
  deriving DecidableEq, Repr

namespace Pattern

def ofSource (source : String) (options : ExpressionOptions) : Except Failure Pattern := do
  let outcome ← Expression.read options source
  pure ⟨source, outcome.options⟩

/-- The parts into which the matches of a pattern split a text, with what its groups hold between them.
A source that cannot be read matches nothing. -/
def split (p : Pattern) (s : String) : List (Option String) :=
  match Expression.read p.options p.source with
  | .ok outcome => outcome.expression.split outcome.groups s
  | .error _ => [some s]

end Pattern

end EntityStore

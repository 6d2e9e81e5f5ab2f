namespace EntityStore

/-- What an expression may overlook or take more widely: the case of letters, the ends of lines, blanks
and remarks in its own text, and characters outside the ASCII range. -/
structure ExpressionOptions where
  ignoresCase : Bool
  bindsToLines : Bool
  dotMeansAll : Bool
  overlooksBlanks : Bool
  asciiOnly : Bool
  deriving DecidableEq, Repr

namespace ExpressionOptions

def none : ExpressionOptions := ⟨false, false, false, false, false⟩

/-- Nothing but the case of letters is overlooked. -/
def caseless : ExpressionOptions := ⟨true, false, false, false, false⟩

/-- The options of either. -/
def union (a b : ExpressionOptions) : ExpressionOptions :=
  ⟨a.ignoresCase || b.ignoresCase, a.bindsToLines || b.bindsToLines, a.dotMeansAll || b.dotMeansAll,
    a.overlooksBlanks || b.overlooksBlanks, a.asciiOnly || b.asciiOnly⟩

/-- The options of the first that are not among the second. -/
def without (a b : ExpressionOptions) : ExpressionOptions :=
  ⟨a.ignoresCase && !b.ignoresCase, a.bindsToLines && !b.bindsToLines, a.dotMeansAll && !b.dotMeansAll,
    a.overlooksBlanks && !b.overlooksBlanks, a.asciiOnly && !b.asciiOnly⟩

end ExpressionOptions

/-- Digits, blanks, and characters of words. -/
inductive CharKind where
  | digit
  | blank
  | word
  deriving DecidableEq, Repr

/-- An item of a set of characters. -/
inductive CharItem where
  | one (c : Char)
  | range (first last : Char)
  | kind (k : CharKind) (holds : Bool)
  deriving DecidableEq, Repr

/-- A place in a text. -/
inductive Anchor where
  | start
  | lineStart
  | finish
  | lineFinish
  | veryEnd
  | wordEdge (holds : Bool)
  deriving DecidableEq, Repr

/-- Which of several numbers of repetitions is tried first, and whether the others are tried at all. -/
inductive Greed where
  | most
  | fewest
  | mostOnly
  deriving DecidableEq, Repr

/-- A regular expression. What a group held is matched again with the least and the greatest number of
characters that it can hold. -/
inductive Expression where
  | nothing
  | any (acrossLines : Bool)
  | chars (holds : Bool) (items : List CharItem)
  | sequence (first second : Expression)
  | choice (first second : Expression)
  | repeated (greed : Greed) (least : Nat) (most : Option Nat) (e : Expression)
  | captured (group : Nat) (e : Expression)
  | anchor (a : Anchor)
  | around (ahead holds : Bool) (e : Expression)
  | once (e : Expression)
  | again (group least : Nat) (most : Option Nat)
  | ifMatched (group : Nat) (yes no : Expression)
  deriving Repr

end EntityStore

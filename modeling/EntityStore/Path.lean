namespace EntityStore

abbrev Path := List String

namespace Path

/-- Splits characters at each dot. There is one segment more than there are dots, and any of them
can be empty. -/
def splitDots : List Char → List (List Char)
  | [] => [[]]
  | c :: cs =>
    match splitDots cs with
    | [] => [[c]]
    | first :: rest => if c = '.' then [] :: first :: rest else (c :: first) :: rest

/-- Joins segments with a dot between each two. -/
def joinDots : List (List Char) → List Char
  | [] => []
  | [s] => s
  | s :: t :: rest => s ++ '.' :: joinDots (t :: rest)

/-- The segments of a dotted name. -/
def ofText (s : String) : Path := (splitDots s.toList).map String.ofList

/-- The dotted name of a path. -/
def text (p : Path) : String := String.ofList (joinDots (p.map String.toList))

/-- All but the last segment, which is the name of the leaf. -/
def parents (p : Path) : Path := p.dropLast

def leaf (p : Path) : String := p.getLast?.getD ""

/-- The paths above a path, the nearest first. -/
def ancestors (p : Path) : List Path :=
  (List.range (p.length - 1)).map fun n => p.take (p.length - 1 - n)

theorem splitDots_ne_nil (cs : List Char) : splitDots cs ≠ [] := by
  induction cs with
  | nil => simp [splitDots]
  | cons c cs ih =>
    cases h : splitDots cs with
    | nil => exact absurd h ih
    | cons first rest => by_cases hc : c = '.' <;> simp [splitDots, h, hc]

theorem joinDots_splitDots (cs : List Char) : joinDots (splitDots cs) = cs := by
  induction cs with
  | nil => rfl
  | cons c cs ih =>
    cases h : splitDots cs with
    | nil => exact absurd h (splitDots_ne_nil cs)
    | cons first rest =>
      rw [h] at ih
      by_cases hc : c = '.'
      · simp [splitDots, h, hc, joinDots, ih]
      · cases rest with
        | nil =>
          have : first = cs := by simpa [joinDots] using ih
          simp [splitDots, h, hc, joinDots, this]
        | cons second rest =>
          have : first ++ '.' :: joinDots (second :: rest) = cs := by simpa [joinDots] using ih
          simp [splitDots, h, hc, joinDots, this]

/-- A segment in front of a dot is split off. -/
theorem splitDots_append_dot (s cs : List Char) (h : '.' ∉ s) :
    splitDots (s ++ '.' :: cs) = s :: splitDots cs := by
  induction s with
  | nil =>
    cases hs : splitDots cs with
    | nil => exact absurd hs (splitDots_ne_nil cs)
    | cons first rest => simp [splitDots, hs]
  | cons c s ih =>
    have hc : c ≠ '.' := fun e => h (by simp [e])
    have hs : '.' ∉ s := fun e => h (by simp [e])
    simp [splitDots, ih hs, hc]

/-- A name without dots is one segment. -/
theorem splitDots_of_not_mem (s : List Char) (h : '.' ∉ s) : splitDots s = [s] := by
  induction s with
  | nil => rfl
  | cons c s ih =>
    have hc : c ≠ '.' := fun e => h (by simp [e])
    have hs : '.' ∉ s := fun e => h (by simp [e])
    simp [splitDots, ih hs, hc]

theorem splitDots_joinDots (ss : List (List Char)) (hne : ss ≠ []) (h : ∀ s ∈ ss, '.' ∉ s) :
    splitDots (joinDots ss) = ss := by
  induction ss with
  | nil => exact absurd rfl hne
  | cons s rest ih =>
    have hs : '.' ∉ s := h s (by simp)
    cases rest with
    | nil => simpa [joinDots] using splitDots_of_not_mem s hs
    | cons t rest =>
      have hrest := ih (by simp) fun u hu => h u (by simp [hu])
      rw [joinDots, splitDots_append_dot s _ hs, hrest]

theorem text_ofText (s : String) : text (ofText s) = s := by
  simp [text, ofText, List.map_map, Function.comp_def, joinDots_splitDots]

/-- Segments without dots are recovered from their name. -/
theorem ofText_text (p : Path) (hne : p ≠ []) (h : ∀ s ∈ p, '.' ∉ s.toList) :
    ofText (text p) = p := by
  have split := splitDots_joinDots (p.map String.toList) (by simpa using hne) (by simpa using h)
  simp [text, ofText, split, List.map_map, Function.comp_def]

end Path

end EntityStore

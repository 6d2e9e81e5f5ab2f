import EntityStore.Proofs.Query.Pattern

namespace EntityStore

namespace LiteralPattern

variable {fold : Char → Char}

/-- Whether a text goes on from a place as a pattern says. Characters count as equal if they are folded to the same one,
and a dollar sign holds at the end of a text and before the end of its last line. -/
def follows (fold : Char → Char) (text : List Char) : List PatternSign → Nat → Bool
  | [], _ => true
  | .literal c :: rest, place => (text[place]?.any fun d => fold d == fold c) && follows fold text rest (place + 1)
  | .anchor a :: rest, place => Expression.anchorHolds text place a && follows fold text rest place
  | .operator _ :: _, _ => false

/-- Whether what a pattern says is found somewhere in a text. It is not known of a pattern with operators. -/
def isFoundIn? (fold : Char → Char) (s source : String) : Option Bool :=
  match signs? source with
  | some signs =>
    if signs.any PatternSign.isOperator then none
    else some ((List.range (s.toList.length + 1)).any (follows fold s.toList signs))
  | none => none

theorem anchorHolds_start (text : List Char) (place : Nat) :
    Expression.anchorHolds text place .start = true ↔ place = 0 := by
  simp [Expression.anchorHolds]

theorem anchorHolds_finish (before after : List Char) :
    Expression.anchorHolds (before ++ after) before.length .finish = true ↔ after = [] ∨ after = ['\n'] := by
  match after with
  | [] => simp [Expression.anchorHolds]
  | [c] => simp [Expression.anchorHolds]
  | c :: d :: rest => simp [Expression.anchorHolds]

/-- A text goes on with some characters if they are those that stand there, whatever their case. -/
theorem follows_literals (cs before rest : List Char) (signs : List PatternSign) :
    follows fold (before ++ rest) (cs.map .literal ++ signs) before.length = true ↔
      ∃ middle after, rest = middle ++ after ∧ middle.map fold = cs.map fold ∧
        follows fold (before ++ middle ++ after) signs (before ++ middle).length = true := by
  -- With each character one more of those that follow counts among those before.
  induction cs generalizing before rest with
  | nil => simp
  | cons c cs ih =>
    cases rest with
    | nil => simp [follows]
    | cons d rest =>
      have hhere : (before ++ d :: rest)[before.length]? = some d := by simp
      have hrest := ih (before ++ [d]) rest
      rw [List.append_assoc, List.singleton_append, List.length_append, List.length_singleton] at hrest
      rw [List.map_cons, List.cons_append, follows, hhere, Option.any_some, Bool.and_eq_true, beq_iff_eq, hrest]
      constructor
      · rintro ⟨hd, middle, after, rfl, hmiddle, hfollows⟩
        exact ⟨d :: middle, after, rfl, by simp [hd, hmiddle], by simpa using hfollows⟩
      · rintro ⟨middle, after, hsplit, hmiddle, hfollows⟩
        cases middle with
        | nil => simp at hmiddle
        | cons e middle =>
          obtain ⟨rfl, rfl⟩ := List.cons.inj hsplit
          obtain ⟨hd, hmiddle⟩ := List.cons.inj hmiddle
          exact ⟨hd, middle, after, rfl, hmiddle, by simpa using hfollows⟩

end LiteralPattern

namespace SoughtText

open LiteralPattern (follows isFoundIn?)

variable {fold : Char → Char} {w : SoughtText}

/-- Whether a text has what is looked for where it has to stand, whatever the case of the letters. -/
def IsIn (fold : Char → Char) (w : SoughtText) (s : String) : Prop :=
  match w.atStart, w.atFinish with
  | true, true => w.text.toList.map fold = s.toList.map fold
  | true, false => w.text.toList.map fold <+: s.toList.map fold
  | false, true => w.text.toList.map fold <:+ s.toList.map fold
  | false, false => w.text.toList.map fold <:+: s.toList.map fold

/-- Whether what is looked for stands in a text, with a remainder behind it if it is bound to the end. -/
def Stands (fold : Char → Char) (w : SoughtText) (remainder : List Char → Prop) (s : String) : Prop :=
  ∃ before middle after, s.toList = before ++ (middle ++ after) ∧ middle.map fold = w.text.toList.map fold ∧
    (w.atStart = true → before = []) ∧ (w.atFinish = true → remainder after)

theorem isIn_iff (s : String) : w.IsIn fold s ↔ w.Stands fold (· = []) s := by
  unfold IsIn Stands
  cases w.atStart with
  | true =>
    cases w.atFinish with
    | true => simp [eq_comm]
    | false =>
      simp only [true_implies, Bool.false_eq_true, false_implies, and_true]
      constructor
      · rintro ⟨back, hback⟩
        obtain ⟨middle, after, hs, hmiddle, _⟩ := List.map_eq_append_iff.mp hback.symm
        exact ⟨[], middle, after, hs, hmiddle, rfl⟩
      · rintro ⟨before, middle, after, hs, hmiddle, rfl⟩
        exact ⟨after.map fold, by rw [hs, ← hmiddle, List.nil_append, List.map_append]⟩
  | false =>
    cases w.atFinish with
    | true =>
      simp only [true_implies, Bool.false_eq_true, false_implies, true_and]
      constructor
      · rintro ⟨front, hfront⟩
        obtain ⟨before, middle, hs, _, hmiddle⟩ := List.map_eq_append_iff.mp hfront.symm
        exact ⟨before, middle, [], by rw [hs, List.append_nil], hmiddle, rfl⟩
      · rintro ⟨before, middle, after, hs, hmiddle, rfl⟩
        exact ⟨before.map fold, by rw [hs, ← hmiddle, List.append_nil, List.map_append]⟩
    | false =>
      simp only [Bool.false_eq_true, false_implies, and_true]
      constructor
      · rintro ⟨front, back, h⟩
        obtain ⟨start, after, hs, hstart, _⟩ := List.map_eq_append_iff.mp h.symm
        obtain ⟨before, middle, rfl, _, hmiddle⟩ := List.map_eq_append_iff.mp hstart
        exact ⟨before, middle, after, by rw [hs, List.append_assoc], hmiddle⟩
      · rintro ⟨before, middle, after, hs, hmiddle⟩
        exact ⟨before.map fold, after.map fold, by rw [hs, ← hmiddle, List.map_append, List.map_append,
          List.append_assoc]⟩

/-- A remainder of one line end leaves a text without it. -/
theorem stands_lineEnd_iff (s : String) :
    w.Stands fold (fun after => after = [] ∨ after = ['\n']) s ↔
      w.IsIn fold s ∨ w.atFinish = true ∧ ∃ t, s = t.push '\n' ∧ w.IsIn fold t := by
  constructor
  · rintro ⟨before, middle, after, hs, hmiddle, hstart, hfinish⟩
    by_cases hbound : w.atFinish = true ∧ after = ['\n']
    · obtain ⟨hw, rfl⟩ := hbound
      refine .inr ⟨hw, String.ofList (before ++ middle), ?_, ?_⟩
      · rw [← String.toList_inj, hs, String.toList_push, String.toList_ofList, List.append_assoc]
      · exact (isIn_iff _).mpr ⟨before, middle, [], by simp, hmiddle, hstart, fun _ => rfl⟩
    · refine .inl ((isIn_iff s).mpr ⟨before, middle, after, hs, hmiddle, hstart, fun hw => ?_⟩)
      exact (hfinish hw).resolve_right fun hafter => hbound ⟨hw, hafter⟩
  · rintro (hin | ⟨hw, t, rfl, hin⟩)
    · obtain ⟨before, middle, after, hs, hmiddle, hstart, hfinish⟩ := (isIn_iff s).mp hin
      exact ⟨before, middle, after, hs, hmiddle, hstart, fun hw => .inl (hfinish hw)⟩
    · obtain ⟨before, middle, after, ht, hmiddle, hstart, hfinish⟩ := (isIn_iff t).mp hin
      obtain rfl := hfinish hw
      exact ⟨before, middle, ['\n'], by simp [ht], hmiddle, hstart, fun _ => .inr rfl⟩

theorem follows_signs (before rest : List Char) :
    follows fold (before ++ rest) w.signs before.length = true ↔
      ∃ middle after, rest = middle ++ after ∧ middle.map fold = w.text.toList.map fold ∧
        (w.atStart = true → before = []) ∧ (w.atFinish = true → after = [] ∨ after = ['\n']) := by
  have hstart (bound : Bool) (text : List Char) (signs : List PatternSign) (place : Nat) :
      follows fold text ((if bound then [.anchor .start] else []) ++ signs) place = true ↔
        (bound = true → place = 0) ∧ follows fold text signs place = true := by
    cases bound <;> simp [follows, LiteralPattern.anchorHolds_start]
  have hfinish (bound : Bool) (before after : List Char) :
      follows fold (before ++ after) (if bound then [.anchor .finish] else []) before.length = true ↔
        (bound = true → after = [] ∨ after = ['\n']) := by
    cases bound <;> simp [follows, LiteralPattern.anchorHolds_finish]
  rw [signs, hstart, LiteralPattern.follows_literals, List.length_eq_zero_iff]
  simp only [hfinish]
  constructor
  · rintro ⟨hbefore, middle, after, hrest, hmiddle, hafter⟩
    exact ⟨middle, after, hrest, hmiddle, hbefore, hafter⟩
  · rintro ⟨middle, after, hrest, hmiddle, hbefore, hafter⟩
    exact ⟨hbefore, middle, after, hrest, hmiddle, hafter⟩

theorem not_isOperator_of_mem_signs {sign : PatternSign} (h : sign ∈ w.signs) : sign.isOperator = false := by
  have hanchor (bound : Bool) (a : Anchor) (hmem : sign ∈ if bound then [PatternSign.anchor a] else []) :
      sign.isOperator = false := by
    cases bound with
    | false => exact absurd hmem List.not_mem_nil
    | true =>
      rw [List.mem_singleton.mp hmem]
      rfl
  rcases List.mem_append.mp h with hstart | hrest
  · exact hanchor _ _ hstart
  · rcases List.mem_append.mp hrest with htext | hfinish
    · obtain ⟨c, _, rfl⟩ := List.mem_map.mp htext
      rfl
    · exact hanchor _ _ hfinish

/-- The pattern of what is looked for is found where that stands, up to the end of a line behind it. -/
theorem isFoundIn?_source (fold : Char → Char) (w : SoughtText) (s : String) :
    ∃ found, isFoundIn? fold s w.source = some found ∧
      (found = true ↔ w.Stands fold (fun after => after = [] ∨ after = ['\n']) s) := by
  have hnone : w.signs.any PatternSign.isOperator = false :=
    List.any_eq_false.mpr fun sign hmem => by simp [not_isOperator_of_mem_signs hmem]
  refine ⟨(List.range (s.toList.length + 1)).any (follows fold s.toList w.signs), ?_, ?_⟩
  · rw [isFoundIn?, signs?_source]
    exact if_neg (by simp [hnone])
  · rw [List.any_eq_true]
    constructor
    · rintro ⟨place, hplace, hfollows⟩
      have hle : place ≤ s.toList.length := Nat.le_of_lt_succ (List.mem_range.mp hplace)
      obtain ⟨before, rest, hs, rfl⟩ : ∃ before rest, s.toList = before ++ rest ∧ before.length = place :=
        ⟨_, _, (List.take_append_drop place s.toList).symm, List.length_take_of_le hle⟩
      rw [hs] at hfollows
      obtain ⟨middle, after, rfl, hmiddle, hstart, hfinish⟩ := (follows_signs before rest).mp hfollows
      exact ⟨before, middle, after, hs, hmiddle, hstart, hfinish⟩
    · rintro ⟨before, middle, after, hs, hmiddle, hstart, hfinish⟩
      refine ⟨before.length, List.mem_range.mpr ?_, ?_⟩
      · rw [hs, List.length_append]
        omega
      · rw [hs]
        exact (follows_signs before (middle ++ after)).mpr ⟨middle, after, rfl, hmiddle, hstart, hfinish⟩

end SoughtText

/-- Whether a field that holds a text fulfils a condition that states a pattern: what it says is found in the text, or
is not where it must not match. It is not known of other conditions, or where case counts. -/
def QueryDocument.fulfilledBy? (fold : Char → Char) (s : String) : Value → Option Bool
  | .document .plain [(.text _, .document .plain [(.text "$regex", .text source), (.text "$options", .text "i")])] =>
    LiteralPattern.isFoundIn? fold s source
  | .document .plain [(.text _, .document .plain [(.text "$not", .pattern pattern)])] =>
    if pattern.options = .caseless then (LiteralPattern.isFoundIn? fold s pattern.source).map not else none
  | _ => none

namespace Predicate

open QueryDocument (fulfilledBy?)

variable {m : Mapping} {p : Predicate} {w : SoughtText}

theorem fulfilledBy?_of_sought? (hw : p.sought? m = some w) (fold : Char → Char) (s : String) :
    fulfilledBy? fold s (p.queryIn m).document =
      (LiteralPattern.isFoundIn? fold s w.source).map fun found => found == p.test.converted.isPositive := by
  rw [queryIn_of_sought? hw]
  cases p.test.converted.isPositive with
  | true => simp [Query.document, Condition.document, fulfilledBy?]
  | false => simp [Query.document, Condition.document, fulfilledBy?]

/-- A text fulfils the condition of a predicate that looks for a text if that stands in it where it has to stand, or in
it without the end of its last line if it has to stand at the end; it fulfils the condition of the contrary if not.
All this holds whatever characters count as equal. -/
theorem fulfilledBy_iff (hmaps : m.maps p.field = true) (hw : p.sought? m = some w) :
    ∃ condition, p.HasCondition m condition ∧ ∀ (fold : Char → Char) (s : String),
      ∃ fulfilled, fulfilledBy? fold s condition = some fulfilled ∧
        (fulfilled = true ↔ (p.test.converted.isPositive = true ↔
          w.IsIn fold s ∨ w.atFinish = true ∧ ∃ t, s = t.push '\n' ∧ w.IsIn fold t)) := by
  refine ⟨_, hasCondition (isStated_of_sought? hmaps hw), fun fold s => ?_⟩
  obtain ⟨found, hfound, hiff⟩ := w.isFoundIn?_source fold s
  refine ⟨found == p.test.converted.isPositive, ?_, ?_⟩
  · rw [fulfilledBy?_of_sought? hw, hfound, Option.map_some]
  · rw [← SoughtText.stands_lineEnd_iff, ← hiff, beq_iff_eq, eq_comm, Bool.eq_iff_iff]

/-- Asks for a name, all of it. -/
def named : Predicate := ⟨"name", .equality true (.text "Ken"), Value.isOk_spelled_text "Ken"⟩

theorem fulfilledBy_iff_named :
    Filter.customers.maps named.field = true ∧ named.sought? Filter.customers = some ⟨"Ken", true, true⟩ ∧
      ∃ condition, named.HasCondition Filter.customers condition ∧
        fulfilledBy? Char.toLower "KEN\n" condition = some true ∧
        ¬SoughtText.IsIn Char.toLower ⟨"Ken", true, true⟩ "KEN\n" := by
  have hmaps : Filter.customers.maps named.field = true := by decide
  have hw : named.sought? Filter.customers = some ⟨"Ken", true, true⟩ := by decide
  obtain ⟨condition, hcondition, hfulfilled⟩ := fulfilledBy_iff hmaps hw
  refine ⟨hmaps, hw, condition, hcondition, ?_, by simp [SoughtText.IsIn]⟩
  obtain ⟨fulfilled, hsome, hiff⟩ := hfulfilled Char.toLower "KEN\n"
  have hlineEnd : ∃ t, "KEN\n" = t.push '\n' ∧ SoughtText.IsIn Char.toLower ⟨"Ken", true, true⟩ t :=
    ⟨"KEN", by decide, by simp only [SoughtText.IsIn]; decide⟩
  rw [hsome, hiff.mpr ⟨fun _ => .inr ⟨rfl, hlineEnd⟩, fun _ => rfl⟩]

end Predicate

end EntityStore

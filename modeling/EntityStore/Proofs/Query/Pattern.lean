import EntityStore.Proofs.Query.Failing

namespace EntityStore

/-- What a piece of a pattern stands for: a character, a place, or anything else that is said about a text. -/
inductive PatternSign where
  | literal (c : Char)
  | anchor (a : Anchor)
  | operator (t : Expression.Token)
  deriving DecidableEq

namespace PatternSign

/-- The character that a piece of a pattern stands for, if it stands for one. -/
def char? : PatternSign → Option Char
  | .literal c => some c
  | _ => none

def isOperator : PatternSign → Bool
  | .operator _ => true
  | _ => false

end PatternSign

/-- A text that is looked for, and whether it has to stand at the start and at the end of the one it is found in. -/
structure SoughtText where
  text : String
  atStart : Bool
  atFinish : Bool
  deriving DecidableEq

namespace LiteralPattern

open Expression (Token tokens isNameChar)

/-- The characters that say something about a text unless a backslash stands before them, places apart. -/
def operators : List Char := ['.', '*', '+', '?', '(', ')', '[', ']', '\x7b', '\x7d', '|', '\\']

def sign : Token → PatternSign
  | .char '^' => .anchor .start
  | .char '$' => .anchor .finish
  | .char c => if operators.contains c then .operator (.char c) else .literal c
  | .escaped c => if isNameChar c then .operator (.escaped c) else .literal c

/-- What a pattern says, from left to right. Nothing is made of one that ends with a lone backslash. -/
def signs? (source : String) : Option (List PatternSign) :=
  match tokens 0 source.toList with
  | (ts, none) => some (ts.map sign)
  | (_, some _) => none

/-- The token that stands for a character in a pattern of a text. -/
def quoted (c : Char) : Token := if special.contains c then .escaped c else .char c

theorem sign_char {c : Char} (h : c ∉ special) : sign (.char c) = .literal c := by
  have hne {d : Char} (hd : d ∈ special) : c ≠ d := fun hcd => h (hcd ▸ hd)
  have hspecial : ∀ d ∈ operators, d ∈ special := by simp [operators, special]
  have hoperator : c ∉ operators := fun hc => h (hspecial c hc)
  unfold sign
  split
  · next heq => exact absurd (Token.char.inj heq) (hne (by decide))
  · next heq => exact absurd (Token.char.inj heq) (hne (by decide))
  · next heq =>
    obtain rfl := Token.char.inj heq
    simp [hoperator]
  · next heq => cases heq

theorem sign_escaped {c : Char} (h : c ∈ special) : sign (.escaped c) = .literal c := by
  have hnone : ∀ d ∈ special, isNameChar d = false := by simp [special, isNameChar]
  rw [sign, hnone c h, if_neg Bool.false_ne_true]

theorem sign_quoted (c : Char) : sign (quoted c) = .literal c := by
  rw [quoted]
  split
  · next h => exact sign_escaped (List.contains_iff_mem.mp h)
  · next h => exact sign_char fun hc => h (List.contains_iff_mem.mpr hc)

/-- A character that is not a backslash is read by itself. -/
theorem tokens_char {c : Char} (h : c ≠ '\\') (place : Nat) (rest : List Char) :
    tokens place (c :: rest) = (.char c :: (tokens (place + 1) rest).1, (tokens (place + 1) rest).2) := by
  rw [tokens]
  exact h

theorem tokens_escapeChar (c : Char) (place : Nat) (rest : List Char) :
    ∃ next, tokens place (escapeChar c ++ rest) = (quoted c :: (tokens next rest).1, (tokens next rest).2) := by
  rw [escapeChar, quoted]
  split
  · exact ⟨_, rfl⟩
  · next h =>
    have hc : c ≠ '\\' := fun hc => h (hc ▸ by decide)
    exact ⟨_, tokens_char hc place rest⟩

/-- A text is read as the tokens for its characters, whatever stands behind it. -/
theorem tokens_escape (s : List Char) (place : Nat) (rest : List Char) :
    ∃ next, tokens place (escape s ++ rest) = (s.map quoted ++ (tokens next rest).1, (tokens next rest).2) := by
  induction s generalizing place with
  | nil => exact ⟨place, rfl⟩
  | cons c s ih =>
    obtain ⟨between, hc⟩ := tokens_escapeChar c place (escape s ++ rest)
    obtain ⟨next, hs⟩ := ih between
    refine ⟨next, ?_⟩
    rw [escape, List.flatMap_cons, List.append_assoc]
    exact hc.trans (by rw [hs]; rfl)

end LiteralPattern

namespace SoughtText

open Expression (Token tokens)

/-- The pattern of a text that is looked for. -/
def source (w : SoughtText) : String :=
  String.ofList ((if w.atStart then ['^'] else []) ++ (LiteralPattern.escape w.text.toList ++
    if w.atFinish then ['$'] else []))

/-- The tokens of that pattern. -/
def tokens (w : SoughtText) : List Token :=
  (if w.atStart then [.char '^'] else []) ++ (w.text.toList.map LiteralPattern.quoted ++
    if w.atFinish then [.char '$'] else [])

/-- What that pattern says. -/
def signs (w : SoughtText) : List PatternSign :=
  (if w.atStart then [.anchor .start] else []) ++ (w.text.toList.map .literal ++
    if w.atFinish then [.anchor .finish] else [])

theorem tokens_source (w : SoughtText) : Expression.tokens 0 w.source.toList = (w.tokens, none) := by
  have hfinish (place : Nat) : Expression.tokens place (if w.atFinish then ['$'] else []) =
      (if w.atFinish then [.char '$'] else [], none) := by
    cases w.atFinish <;> rfl
  have htext (place : Nat) : Expression.tokens place (LiteralPattern.escape w.text.toList ++
      if w.atFinish then ['$'] else []) =
        (w.text.toList.map LiteralPattern.quoted ++ if w.atFinish then [.char '$'] else [], none) := by
    obtain ⟨next, h⟩ := LiteralPattern.tokens_escape w.text.toList place (if w.atFinish then ['$'] else [])
    rw [h, hfinish]
  rw [source, String.toList_ofList, tokens]
  cases w.atStart with
  | false => exact htext 0
  | true =>
    have hrest := htext 1
    refine (LiteralPattern.tokens_char (by decide) 0 _).trans ?_
    exact congrArg (fun r : List Token × Option Nat => (.char '^' :: r.1, r.2)) hrest

theorem signs?_source (w : SoughtText) : LiteralPattern.signs? w.source = some w.signs := by
  have hmap : w.tokens.map LiteralPattern.sign = w.signs := by
    have htext : (w.text.toList.map LiteralPattern.quoted).map LiteralPattern.sign =
        w.text.toList.map .literal := by
      rw [List.map_map]
      exact List.map_congr_left fun c _ => LiteralPattern.sign_quoted c
    rw [tokens, signs, List.map_append, List.map_append, htext]
    cases w.atStart <;> cases w.atFinish <;> rfl
  rw [LiteralPattern.signs?, tokens_source]
  exact congrArg some hmap

variable {v w : SoughtText}

theorem filterMap_signs (w : SoughtText) : w.signs.filterMap PatternSign.char? = w.text.toList := by
  have htext : (w.text.toList.map PatternSign.literal).filterMap PatternSign.char? = w.text.toList := by
    rw [List.filterMap_map]
    exact List.filterMap_some
  have hanchor (bound : Bool) (a : Anchor) :
      (if bound then [PatternSign.anchor a] else []).filterMap PatternSign.char? = [] := by
    cases bound <;> rfl
  rw [signs, List.filterMap_append, List.filterMap_append, htext, hanchor, hanchor, List.nil_append, List.append_nil]

theorem start_mem_signs : .anchor .start ∈ w.signs ↔ w.atStart = true := by
  cases hstart : w.atStart <;> cases hfinish : w.atFinish <;> simp [signs, hstart, hfinish]

theorem finish_mem_signs : .anchor .finish ∈ w.signs ↔ w.atFinish = true := by
  cases hstart : w.atStart <;> cases hfinish : w.atFinish <;> simp [signs, hstart, hfinish]

/-- What a pattern says tells what is looked for, and where it has to stand. -/
theorem eq_of_signs_eq (h : v.signs = w.signs) : v = w := by
  have htext : v.text = w.text := by
    rw [← String.toList_inj, ← filterMap_signs, ← filterMap_signs, h]
  have hstart : v.atStart = w.atStart := by
    rw [Bool.eq_iff_iff, ← start_mem_signs, ← start_mem_signs, h]
  have hfinish : v.atFinish = w.atFinish := by
    rw [Bool.eq_iff_iff, ← finish_mem_signs, ← finish_mem_signs, h]
  cases v
  cases w
  simp_all

/-- No two texts that are looked for, or places for one, have the same pattern. -/
theorem eq_of_source_eq (h : v.source = w.source) : v = w := by
  apply eq_of_signs_eq
  have hsigns := signs?_source v
  rw [h, signs?_source] at hsigns
  exact (Option.some.inj hsigns).symm

end SoughtText

namespace Test

/-- The text that a test of a stored field looks for by a pattern: one that has to be a part of what is stored, or all
of it. In the native field nothing is equal by a pattern. -/
def sought? (field : String) : Test → Option SoughtText
  | .equality _ (.text s) => if field = Mapping.nativeField then none else some ⟨s, true, true⟩
  | .text part _ s => some ⟨s, part == .start, part == .finish⟩
  | _ => none

/-- Whether a test that looks for a text asks that it is found. -/
def isPositive : Test → Bool
  | .equality holds _ | .text _ holds _ => holds
  | _ => true

variable {field : String} {t : Test} {w : SoughtText}

theorem query_of_sought? (h : t.sought? field = some w) :
    t.query field = .field field (.pattern t.isPositive w.source) := by
  unfold sought? at h
  split at h
  · split at h
    · cases h
    · next hfield =>
      obtain rfl := Option.some.inj h
      exact if_neg hfield
  · next part holds s =>
    obtain rfl := Option.some.inj h
    cases part <;> simp [query, LiteralPattern.ofPart, SoughtText.source, isPositive]
  · cases h

/-- What is a text once it is prepared can be copied. -/
theorem isCopyable_of_sought? (h : t.converted.sought? field = some w) :
    t.operand.holdsView = false ∧ t.refusesPreparation = false := by
  cases t with
  | equality holds v =>
    cases v with
    | text s => exact ⟨rfl, rfl⟩
    | url s => exact ⟨rfl, rfl⟩
    | document kind fields => cases kind <;> cases h
    | record kind attributes identity => cases kind <;> cases h
    | _ => cases h
  | text part holds s => exact ⟨rfl, rfl⟩
  | _ => cases h

end Test

/-- The pattern in a condition that states one: it is an operator or, where it must not match, a value. -/
def QueryDocument.patternSource? : Value → Option String
  | .document .plain [(.text _, .document .plain [(.text "$regex", .text source), (.text "$options", .text _)])] =>
    some source
  | .document .plain [(.text _, .document .plain [(.text "$not", .pattern pattern)])] => some pattern.source
  | _ => none

/-- The queries of tests that state a pattern are those that match by one. -/
theorem Test.isSome_patternSource?_query (field : String) (t : Test) :
    (QueryDocument.patternSource? (t.query field).document).isSome = (t.query field).isPattern := by
  cases t with
  | equality holds v =>
    cases v with
    | text s =>
      by_cases h : field = Mapping.nativeField <;> cases holds <;>
        simp [query, h, Query.document, Condition.document, QueryDocument.patternSource?, Query.isPattern,
          Condition.isPattern]
    | _ => cases holds <;> rfl
  | text part holds s => cases holds <;> rfl
  | comparison c v => cases c <;> rfl
  | range holds low high => cases holds <;> rfl
  | membership holds items => cases holds <;> rfl
  | emptiness holds => cases holds <;> rfl

namespace Predicate

open QueryDocument (patternSource?)

/-- The text that a predicate looks for by a pattern. -/
def sought? (m : Mapping) (p : Predicate) : Option SoughtText := p.test.converted.sought? (m.storageName p.field)

variable {m : Mapping} {p : Predicate} {w : SoughtText}

theorem isStated_of_sought? (hmaps : m.maps p.field = true) (hw : p.sought? m = some w) : p.IsStated m where
  maps := hmaps
  isCopyable := (Test.isCopyable_of_sought? hw).1
  isPrepared := (Test.isCopyable_of_sought? hw).2

theorem queryIn_of_sought? (hw : p.sought? m = some w) :
    p.queryIn m = .field (m.storageName p.field) (.pattern p.test.converted.isPositive w.source) :=
  Test.query_of_sought? hw

theorem HasCondition.unique {a b : Value} (ha : p.HasCondition m a) (hb : p.HasCondition m b) : a = b := by
  obtain ⟨d, hd, hda⟩ := ha
  obtain ⟨d', hd', hdb⟩ := hb
  obtain rfl := Except.ok.inj (hd.symm.trans hd')
  exact List.singleton_inj.mp (hda.symm.trans hdb)

theorem patternSource?_of_sought? (hw : p.sought? m = some w) :
    patternSource? (p.queryIn m).document = some w.source := by
  rw [queryIn_of_sought? hw]
  cases p.test.converted.isPositive <;> rfl

theorem patternSource?_of_hasCondition {condition : Value} (h : p.HasCondition m condition)
    (hw : p.sought? m = some w) : patternSource? condition = some w.source := by
  obtain ⟨d, hd, hcondition⟩ := h
  have hstated : p.IsStated m := Filter.isStated_of_outcome hd p (by simp [alone, Filter.predicates])
  rw [HasCondition.unique ⟨d, hd, hcondition⟩ (hasCondition hstated)]
  exact patternSource?_of_sought? hw

/-- The pattern of a predicate that looks for a text says the text, character by character, bound to the start and to
the end where it has to stand there, and says nothing else. Another predicate has the same pattern only if it looks for
the same text in the same place. -/
theorem pattern_spells (hmaps : m.maps p.field = true) (hw : p.sought? m = some w) :
    ∃ condition source, p.HasCondition m condition ∧ patternSource? condition = some source ∧
      LiteralPattern.signs? source = some w.signs ∧
      ∀ (n : Mapping) (q : Predicate) (v : SoughtText) (other : Value), q.sought? n = some v →
        q.HasCondition n other → patternSource? other = some source → v = w := by
  have hstated := isStated_of_sought? hmaps hw
  refine ⟨_, _, hasCondition hstated, patternSource?_of_sought? hw, w.signs?_source, ?_⟩
  intro n q v other hv hother hsame
  have hsource := patternSource?_of_hasCondition hother hv
  exact SoughtText.eq_of_source_eq (Option.some.inj (hsource.symm.trans hsame))

/-- Asks for a name that does not end with a text of signs, which itself begins and ends like a pattern. -/
def awkward : Predicate := ⟨"name", .text .finish false "^\x7b0\x7d$\n\\", rfl⟩

theorem pattern_spells_awkward :
    Filter.customers.maps awkward.field = true ∧
      awkward.sought? Filter.customers = some ⟨"^\x7b0\x7d$\n\\", false, true⟩ ∧
      ∃ condition source, awkward.HasCondition Filter.customers condition ∧ patternSource? condition = some source ∧
        LiteralPattern.signs? source = some [.literal '^', .literal '\x7b', .literal '0', .literal '\x7d', .literal '$',
          .literal '\n', .literal '\\', .anchor .finish] := by
  have hmaps : Filter.customers.maps awkward.field = true := by decide
  have hw : awkward.sought? Filter.customers = some ⟨"^\x7b0\x7d$\n\\", false, true⟩ := by decide
  obtain ⟨condition, source, hcondition, hsource, hsigns, _⟩ := pattern_spells hmaps hw
  exact ⟨hmaps, hw, condition, source, hcondition, hsource, hsigns⟩

end Predicate

end EntityStore

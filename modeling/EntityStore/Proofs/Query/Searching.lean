import EntityStore.Proofs.Query.Matching

namespace EntityStore

open LiteralPattern (sign)

namespace PatternSign

/-- The expression that a piece of a pattern is read as. -/
def expression : PatternSign → Expression
  | .literal c => Expression.literal c
  | .anchor a => .anchor a
  | .operator _ => .nothing

/-- The expression that the pieces of a pattern are read as. -/
def expressionOf (signs : List PatternSign) : Expression := Expression.sequenceOf (signs.map expression).reverse

theorem expressionOf_cons (sign : PatternSign) {signs : List PatternSign} (hne : signs ≠ []) :
    expressionOf (sign :: signs) = .sequence sign.expression (expressionOf signs) := by
  have hconcat (es : List Expression) (e : Expression) (hes : es ≠ []) :
      Expression.sequenceOf (es ++ [e]) = .sequence e (Expression.sequenceOf es) := by
    cases es with
    | nil => exact absurd rfl hes
    | cons d es => simp [Expression.sequenceOf]
  rw [expressionOf, expressionOf, List.map_cons, List.reverse_cons]
  exact hconcat _ _ (by simpa using hne)

theorem looksBehindEvenly_expression (sign : PatternSign) : sign.expression.looksBehindEvenly = true := by
  cases sign <;> rfl

theorem looksBehindEvenly_expressionOf (signs : List PatternSign) :
    (expressionOf signs).looksBehindEvenly = true := by
  induction signs with
  | nil => rfl
  | cons sign signs ih =>
    by_cases hne : signs = []
    · subst hne
      exact looksBehindEvenly_expression sign
    · rw [expressionOf_cons sign hne, Expression.looksBehindEvenly, looksBehindEvenly_expression, ih]
      rfl

end PatternSign

namespace Expression

/-- The reader behind a token. -/
def Reader.past (r : Reader) (t : Token) (rest : List Token) : Reader :=
  { r with rest := rest, place := r.place + t.length }

section

variable {t : Token} {c : Char} {rest : List Token} {r : Reader}

theorem next_run (hrest : r.rest = t :: rest) (hdangling : r.dangling = none) :
    next.run r = .ok (some t, r.past t rest) := by
  cases rest <;> simp [next, hrest, hdangling, Reader.past]

theorem peek_run (hrest : r.rest = t :: rest) : peek.run r = .ok (some t, r) := by
  simp [peek, hrest]

theorem ne_of_isNameChar {d : Char} (h : isNameChar c = false) (hd : isNameChar d = true) : c ≠ d :=
  fun hcd => by simp [hcd, hd] at h

theorem isDigit_of_isNameChar (h : isNameChar c = false) : c.isDigit = false := by
  cases hdigit : c.isDigit with
  | false => rfl
  | true => simp [isNameChar, Char.isAlphanum, hdigit] at h

theorem escapedChar_run (h : isNameChar c = false) (r : Reader) : (escapedChar c).run r = .ok (c, r) := by
  by_cases hc : c = '\\'
  · subst hc
    rfl
  · have hcontrols : controls.lookup c = none := by
      have hnames : ∀ e ∈ controls, e.1 = '\\' ∨ isNameChar e.1 = true := by decide
      refine List.lookup_eq_none_iff.mpr fun e he => bne_iff_ne.mpr ?_
      rcases hnames e he with hbackslash | hname
      · exact hbackslash ▸ hc
      · exact ne_of_isNameChar h hname
    have hletter : isAsciiLetter c = false := by
      cases hletter : c.isAlpha with
      | false => exact hletter
      | true => simp [isNameChar, Char.isAlphanum, hletter] at h
    rw [escapedChar, hcontrols, hletter]
    · rfl
    -- The letters with which a number begins.
    all_goals exact ne_of_isNameChar h (by decide)

/-- A character behind a backslash that stands in no name is itself. -/
theorem escape_run (h : isNameChar c = false) (r : Reader) : (escape c).run r = .ok (literal c, r) := by
  have hkinds : kinds.lookup c = none := by
    have hnames : ∀ e ∈ kinds, isNameChar e.1 = true := by decide
    exact List.lookup_eq_none_iff.mpr fun e he => bne_iff_ne.mpr (ne_of_isNameChar h (hnames e he))
  have hanchors : anchors.lookup c = none := by
    have hnames : ∀ e ∈ anchors, isNameChar e.1 = true := by decide
    exact List.lookup_eq_none_iff.mpr fun e he => bne_iff_ne.mpr (ne_of_isNameChar h (hnames e he))
  rw [escape, hkinds, hanchors]
  simp [isDigit_of_isNameChar h, escapedChar_run h]

end

section

variable {t : Token} {rest : List Token} {r : Reader} (nested isFirst : Bool) (done : List Expression)

/-- A token that is no operator is read by itself, behind the expressions that were read before. -/
theorem items_step (ht : (sign t).isOperator = false) (hrest : r.rest = t :: rest) (hdangling : r.dangling = none)
    (hoptions : r.options = .caseless) (fuel : Nat) :
    (items (fuel + 1) nested isFirst done).run r =
      (items fuel nested isFirst ((sign t).expression :: done)).run (r.past t rest) := by
  have hnext := next_run hrest hdangling
  rw [items]
  simp only [StateT.run_bind, StateT.run_get, pure_bind, peek_run hrest, Outcome.ok_bind]
  cases t with
  | escaped c =>
    have hc : isNameChar c = false := by
      cases hname : isNameChar c with
      | false => rfl
      | true => simp [sign, hname, PatternSign.isOperator] at ht
    simp [hnext, escape_run hc, sign, hc, PatternSign.expression, Outcome.ok_bind]
  | char c =>
    by_cases hstart : c = '^'
    · subst hstart
      simp [hnext, sign, PatternSign.expression, Outcome.ok_bind, hoptions, ExpressionOptions.caseless]
    by_cases hfinish : c = '$'
    · subst hfinish
      simp [hnext, sign, PatternSign.expression, Outcome.ok_bind, hoptions, ExpressionOptions.caseless]
    have hsign : sign (.char c) = if c ∈ LiteralPattern.operators then .operator (.char c) else .literal c := by
      simp [sign]
    by_cases hc : c ∈ LiteralPattern.operators
    · rw [hsign, if_pos hc] at ht
      exact absurd ht (by simp [PatternSign.isOperator])
    · rw [hsign, if_neg hc, PatternSign.expression]
      simp only [LiteralPattern.operators, List.mem_cons, not_or] at hc
      simp [hnext, Outcome.ok_bind, hoptions, ExpressionOptions.caseless, hc]

/-- Tokens none of which is an operator are read one behind the other, up to the end. -/
theorem items_run {ts : List Token} (hts : ∀ t ∈ ts, (sign t).isOperator = false) (hrest : r.rest = ts)
    (hdangling : r.dangling = none) (hoptions : r.options = .caseless) (fuel : Nat) (hfuel : ts.length < fuel) :
    ∃ place, (items fuel nested isFirst done).run r =
      .ok (sequenceOf (((ts.map sign).map PatternSign.expression).reverse ++ done),
        { r with rest := [], place := place }) := by
  -- Each token takes one unit of fuel, and goes to the front of what is done.
  induction ts generalizing r done fuel with
  | nil =>
    obtain ⟨fuel, rfl⟩ := Nat.exists_eq_succ_of_ne_zero (Nat.ne_of_gt hfuel)
    refine ⟨r.place, ?_⟩
    have hend : { r with rest := [], place := r.place } = r := by rw [← hrest]
    rw [items]
    simp [peek, hrest, hend]
  | cons t ts ih =>
    obtain ⟨fuel, rfl⟩ := Nat.exists_eq_succ_of_ne_zero (Nat.ne_of_gt (Nat.lt_of_le_of_lt (Nat.zero_le _) hfuel))
    obtain ⟨ht, hts⟩ := List.forall_mem_cons.mp hts
    obtain ⟨place, hrun⟩ := ih ((sign t).expression :: done) (r := r.past t ts) hts rfl hdangling hoptions fuel
      (by simpa using hfuel)
    refine ⟨place, ?_⟩
    rw [items_step nested isFirst done ht hrest hdangling hoptions, hrun]
    simp [Reader.past]

end

/-- A pattern without operators can be read, piece by piece. -/
theorem read_of_signs? {source : String} {signs : List PatternSign} (hsigns : LiteralPattern.signs? source = some signs)
    (hoperators : signs.any PatternSign.isOperator = false) :
    Expression.read .caseless source = .ok ⟨PatternSign.expressionOf signs, 0, .caseless⟩ := by
  obtain ⟨ts, htokens, rfl⟩ : ∃ ts, tokens 0 source.toList = (ts, none) ∧ ts.map sign = signs := by
    unfold LiteralPattern.signs? at hsigns
    split at hsigns
    · next ts htokens => exact ⟨ts, htokens, Option.some.inj hsigns⟩
    · cases hsigns
  have hts : ∀ t ∈ ts, (sign t).isOperator = false := by
    simpa using hoperators
  let start : Reader := ⟨ts, 0, none, 0, none, [], [], [], .caseless, false⟩
  obtain ⟨place, hitems⟩ := items_run false true [] (r := start) hts rfl rfl rfl (4 * ts.length + 3) (by omega)
  rw [List.append_nil] at hitems
  have heven := PatternSign.looksBehindEvenly_expressionOf (ts.map sign)
  rw [PatternSign.expressionOf] at heven ⊢
  generalize sequenceOf ((ts.map sign).map PatternSign.expression).reverse = e at hitems heven ⊢
  have halternatives : (alternatives (4 * ts.length + 4) false true).run start =
      .ok (e, { start with rest := [], place := place }) := by
    rw [alternatives]
    simp [hitems, Outcome.ok_bind, accept, peek]
  have hread : readWith .caseless source = .ok ⟨e, 0, .caseless⟩ := by
    rw [readWith, htokens]
    simp [start, halternatives, Outcome.ok_bind, heven]
  rw [read, hread]

/-- An expression is found at some place if it matches at one. -/
theorem isSome_firstMatch? (text : List Char) (e : Expression) (places : List Nat) :
    (firstMatch? text e none places).isSome = places.any fun place => !(ends text e ⟨place, []⟩).isEmpty := by
  induction places with
  | nil => rfl
  | cons place places ih =>
    rw [firstMatch?, List.any_cons, ← ih]
    cases ends text e ⟨place, []⟩ <;> simp

end Expression

namespace LiteralPattern

open Expression (ends firstMatch?)

theorem ends_expressionOf_cons (text : List Char) (sign : PatternSign) (signs : List PatternSign)
    (p : Expression.Progress) : ends text (PatternSign.expressionOf (sign :: signs)) p =
      (ends text sign.expression p).flatMap (ends text (PatternSign.expressionOf signs)) := by
  by_cases hne : signs = []
  · subst hne
    exact (List.flatMap_singleton' _).symm
  · rw [PatternSign.expressionOf_cons sign hne, ends]

/-- What pieces of a pattern are read as matches where a text goes on as they say. -/
theorem isEmpty_ends_expressionOf (text : List Char) {signs : List PatternSign}
    (hoperators : signs.any PatternSign.isOperator = false) (place : Nat) :
    (ends text (PatternSign.expressionOf signs) ⟨place, []⟩).isEmpty = !follows id text signs place := by
  induction signs generalizing place with
  | nil => rfl
  | cons sign signs ih =>
    rw [List.any_cons, Bool.or_eq_false_iff] at hoperators
    have hrest := ih hoperators.2
    rw [ends_expressionOf_cons]
    cases sign with
    | operator t => exact absurd hoperators.1 (by simp [PatternSign.isOperator])
    | anchor a =>
      rw [PatternSign.expression, ends, follows]
      cases Expression.anchorHolds text place a with
      | false => rfl
      | true => simp [hrest]
    | literal c =>
      rw [PatternSign.expression, Expression.literal, ends, Expression.stepOver, follows]
      cases text[place]? with
      | none => rfl
      | some d =>
        by_cases hd : d = c
        · simp [hd, hrest, CharItem.contains]
        · simp [hd, CharItem.contains]

/-- What is found by a pattern without operators, if no two characters count as equal, is what is found by reading it as
a regular expression. -/
theorem isFoundIn?_eq_firstMatch? {source s : String} {found : Bool} (h : isFoundIn? id s source = some found) :
    ∃ outcome, Expression.read .caseless source = .ok outcome ∧
      (firstMatch? s.toList outcome.expression none (List.range (s.toList.length + 1))).isSome = found := by
  unfold isFoundIn? at h
  split at h
  · next signs hsigns =>
    split at h
    · cases h
    · next hoperators =>
      rw [Bool.not_eq_true] at hoperators
      obtain rfl := Option.some.inj h
      refine ⟨_, Expression.read_of_signs? hsigns hoperators, ?_⟩
      rw [Expression.isSome_firstMatch?]
      exact List.any_congr rfl fun place => by rw [isEmpty_ends_expressionOf _ hoperators, Bool.not_not]
  · cases h

end LiteralPattern

namespace SoughtText

open LiteralPattern (isFoundIn?)

variable {fold : Char → Char} {w : SoughtText}

/-- What is looked for if characters are replaced by what they are folded to. -/
def folded (fold : Char → Char) (w : SoughtText) : SoughtText :=
  { w with text := String.ofList (w.text.toList.map fold) }

theorem stands_folded_iff (hline : ∀ c, fold c = '\n' ↔ c = '\n') (s : String) :
    (w.folded fold).Stands id (fun after => after = [] ∨ after = ['\n']) (String.ofList (s.toList.map fold)) ↔
      w.Stands fold (fun after => after = [] ∨ after = ['\n']) s := by
  have hremainder (after : List Char) :
      after.map fold = [] ∨ after.map fold = ['\n'] ↔ after = [] ∨ after = ['\n'] := by
    simp [List.map_eq_singleton_iff, hline]
  unfold Stands folded
  simp only [String.toList_ofList, List.map_id]
  constructor
  · rintro ⟨before, middle, after, hfolded, rfl, hstart, hfinish⟩
    obtain ⟨before, rest, hs, rfl, hrest⟩ := List.map_eq_append_iff.mp hfolded
    obtain ⟨middle, after, rfl, hmiddle, rfl⟩ := List.map_eq_append_iff.mp hrest
    exact ⟨before, middle, after, hs, hmiddle, fun hw => List.map_eq_nil_iff.mp (hstart hw),
      fun hw => (hremainder after).mp (hfinish hw)⟩
  · rintro ⟨before, middle, after, hs, hmiddle, hstart, hfinish⟩
    refine ⟨before.map fold, _, after.map fold, ?_, rfl, fun hw => List.map_eq_nil_iff.mpr (hstart hw),
      fun hw => (hremainder after).mpr (hfinish hw)⟩
    rw [hs, ← hmiddle, List.map_append, List.map_append]

/-- What is found by the pattern of a text if case is overlooked is what is found by reading it as a regular expression,
once all characters are folded. -/
theorem isFoundIn?_eq_firstMatch? (hline : ∀ c, fold c = '\n' ↔ c = '\n') (w : SoughtText) (s : String) :
    ∃ outcome, Expression.read .caseless (w.folded fold).source = .ok outcome ∧
      isFoundIn? fold s w.source = some (Expression.firstMatch? (s.toList.map fold) outcome.expression none
        (List.range (s.toList.length + 1))).isSome := by
  obtain ⟨found, hfound, hiff⟩ := w.isFoundIn?_source fold s
  obtain ⟨same, hsame, hsameiff⟩ := (w.folded fold).isFoundIn?_source id (String.ofList (s.toList.map fold))
  obtain ⟨outcome, hread, hmatch⟩ := LiteralPattern.isFoundIn?_eq_firstMatch? hsame
  rw [String.toList_ofList, List.length_map] at hmatch
  have heq : found = same := by
    rw [Bool.eq_iff_iff, hiff, hsameiff, stands_folded_iff hline]
  exact ⟨outcome, hread, by rw [hfound, hmatch, heq]⟩

end SoughtText

end EntityStore

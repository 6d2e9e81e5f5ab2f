import EntityStore.Engine.Scripted
import EntityStore.Proofs.Engine.Dialogue
import EntityStore.Proofs.Repository.Finding
import EntityStore.Proofs.Repository.Operation
import EntityStore.Proofs.Repository.WrittenDocument

namespace EntityStore.Repository

open Document Program

/-- The request that looks for an entity before it is written. -/
def lookup (query : Value) : Request := .findOne query (some nativeFieldOnly)

/-- What is said while a document is inserted and read back, and the last answer. -/
inductive IsInsertion (expanded : Document) : List Exchange → Except Failure (Option Value) → Prop
  | refused (e : Failure) : IsInsertion expanded [⟨.insertOne expanded, .error e⟩] (.error e)
  | readBack (id : Value) (answer : Except Failure (Option Value)) : IsInsertion expanded
      [⟨.insertOne expanded, .ok id⟩, ⟨.findOne (.single Mapping.nativeField id) none, answer⟩] answer

/-- What is said while an entity is added, and the last answer. -/
inductive IsAddition (isNew : Bool) (query : Value) (expanded changes : Document) :
    List Exchange → Except Failure (Option Value) → Prop
  | new {said answer} (hnew : isNew = true) (h : IsInsertion expanded said answer) :
      IsAddition isNew query expanded changes said answer
  | unread (hknown : isNew = false) (e : Failure) :
      IsAddition isNew query expanded changes [⟨lookup query, .error e⟩] (.error e)
  | absent {said answer} (hknown : isNew = false) (h : IsInsertion expanded said answer) :
      IsAddition isNew query expanded changes (⟨lookup query, .ok none⟩ :: said) answer
  | present (hknown : isNew = false) (found : Value) (answer : Except Failure (Option Value)) :
      IsAddition isNew query expanded changes
        [⟨lookup query, .ok (some found)⟩, ⟨.findOneAndUpdate query (.plain (settingFields changes)), answer⟩] answer

section

variable {isNew : Bool} {query : Value} {expanded changes : Document} {said : List Exchange}
  {answer : Except Failure (Option Value)}

namespace IsInsertion

variable (h : IsInsertion expanded said answer)
include h

theorem countP_isWrite : said.countP (·.request.isWrite) = 1 := by
  cases h <;> rfl

theorem ends_with_failure {k : Nat} {x : Exchange} {e : Failure} (hx : said[k]? = some x) (he : x.failure? = some e) :
    said.length = k + 1 := by
  cases h with
  | refused d =>
    obtain ⟨hk, -⟩ := List.getElem?_eq_some_iff.mp hx
    simp only [List.length_singleton] at hk ⊢
    omega
  | readBack id answer =>
    match k, hx with
    | 0, hx =>
      obtain rfl := Option.some.inj hx
      exact absurd he (by simp [Exchange.failure?])
    | 1, _ => rfl

theorem not_updates {x : Exchange} (hx : x ∈ said) (query update : Value) :
    x.request ≠ .findOneAndUpdate query update := by
  cases h with
  | refused d =>
    obtain rfl := List.mem_singleton.mp hx
    exact Request.noConfusion
  | readBack id answer =>
    rcases List.mem_pair.mp hx with rfl | rfl
    · exact Request.noConfusion
    · exact Request.noConfusion

theorem not_looks {x : Exchange} (hx : x ∈ said) (query : Value) : x.request ≠ lookup query := by
  cases h with
  | refused d =>
    obtain rfl := List.mem_singleton.mp hx
    exact Request.noConfusion
  | readBack id answer =>
    rcases List.mem_pair.mp hx with rfl | rfl
    · exact Request.noConfusion
    · exact fun hlook => nomatch (Request.findOne.inj hlook).2

end IsInsertion

namespace IsAddition

variable (h : IsAddition isNew query expanded changes said answer)
include h

theorem countP_isWrite_le : said.countP (·.request.isWrite) ≤ 1 := by
  cases h with
  | new _ h => exact Nat.le_of_eq h.countP_isWrite
  | unread _ e => exact Nat.zero_le 1
  | absent _ h => exact Nat.le_of_eq h.countP_isWrite
  | present _ found answer => exact Nat.le_refl 1

theorem ends_with_failure {k : Nat} {x : Exchange} {e : Failure} (hx : said[k]? = some x) (he : x.failure? = some e) :
    said.length = k + 1 := by
  cases h with
  | new _ h => exact h.ends_with_failure hx he
  | unread _ d =>
    obtain ⟨hk, -⟩ := List.getElem?_eq_some_iff.mp hx
    simp only [List.length_singleton] at hk ⊢
    omega
  | absent _ h =>
    cases k with
    | zero =>
      obtain rfl := Option.some.inj hx
      exact absurd he (by simp [Exchange.failure?])
    | succ k =>
      rw [List.length_cons, h.ends_with_failure hx he]
  | present _ found answer =>
    match k, hx with
    | 0, hx =>
      obtain rfl := Option.some.inj hx
      exact absurd he (by simp [Exchange.failure?])
    | 1, _ => rfl

/-- What is found is not inserted again. -/
theorem not_inserts {found : Value} (hfound : ⟨lookup query, .ok (some found)⟩ ∈ said) {x : Exchange} (hx : x ∈ said)
    (d : Document) : x.request ≠ .insertOne d := by
  cases h with
  | new _ h => exact absurd rfl (h.not_looks hfound query)
  | unread _ e =>
    obtain rfl := List.mem_singleton.mp hx
    exact Request.noConfusion
  | absent _ h =>
    rcases List.mem_cons.mp hfound with hsame | hfound
    · obtain ⟨-, hreply⟩ := Exchange.mk.inj hsame
      exact nomatch eq_of_heq hreply
    · exact absurd rfl (h.not_looks hfound query)
  | present _ found answer =>
    rcases List.mem_pair.mp hx with rfl | rfl
    · exact Request.noConfusion
    · exact Request.noConfusion

/-- What is not found is not updated. -/
theorem not_updates (hfound : ∀ v, ⟨lookup query, .ok (some v)⟩ ∉ said) {x : Exchange} (hx : x ∈ said)
    (q update : Value) : x.request ≠ .findOneAndUpdate q update := by
  cases h with
  | new _ h => exact h.not_updates hx q update
  | unread _ e =>
    obtain rfl := List.mem_singleton.mp hx
    exact Request.noConfusion
  | absent _ h =>
    rcases List.mem_cons.mp hx with rfl | hx
    · exact Request.noConfusion
    · exact h.not_updates hx q update
  | present _ v answer => exact absurd List.mem_cons_self (hfound v)

end IsAddition

end

variable {α σ : Type} {r : Repository α} {engine : Engine σ} {field : String}

/-- Whether everything that is told of an entity, once something was said to the engine, can be shown. -/
def isShown (entity : Value) (said : List Exchange) : Bool := entity.display.isOk && said.all (·.isShown)

theorem isShown_of_display {entity : Value} {e : Failure} (h : entity.display = .error e) (said : List Exchange) :
    isShown entity said = false := by
  rw [isShown, h]
  rfl

theorem isShown_of_display_ok {entity : Value} {shown : String} (h : entity.display = .ok shown)
    (said : List Exchange) : isShown entity said = said.all (·.isShown) := by
  rw [isShown, h]
  rfl

/-- The exchanges in which a document is inserted and read back. -/
def inserting (expanded : Document) (id : Value) (answer : Except Failure (Option Value)) : List Exchange :=
  [⟨.insertOne expanded, .ok id⟩, ⟨.findOne (.single Mapping.nativeField id) none, answer⟩]

theorem tells_inserted (engine : Engine σ) (entity : Value) (expanded : Document) (id : Value) (stored : Option Value)
    (state : σ) :
    ∃ outcome, Says engine (do
        let shown ← ofExcept entity.display
        let shownId ← ofExcept id.display
        record .info s!"Inserted entity '{shown}' into '{r.mapping.collection}' (_id: {shownId})."
        pure stored) state [] outcome state ∧
      IsTold (isShown entity (inserting expanded id (.ok stored))) (.ok stored) outcome := by
  refine IsTold.exists_telling (fun e he => isShown_of_display he _) fun shown hshown => ?_
  have hid : (inserting expanded id (.ok stored)).all (·.isShown) = id.display.isOk := by
    simp [inserting, Exchange.isShown, Request.isShown]
  rw [isShown_of_display_ok hshown, hid]
  refine IsTold.exists_telling (fun e he => ?_) fun shownId hshownId => ⟨_, .bind_record (.done _ _), .kept fun _ => ?_⟩
  · rw [he]
    rfl
  · rw [hshownId]
    rfl

theorem insertRecord_says (engine : Engine σ) (entity : Value) {document expanded : Document}
    (hexpanded : expandFields document = .ok expanded) (before : σ) :
    ∃ said answer outcome after, Says engine (r.insertRecord entity document) before said outcome after ∧
      IsInsertion expanded said answer ∧ IsTold (isShown entity said) answer outcome := by
  cases hinsert : engine.answer (.insertOne expanded) before with
  | mk reply between =>
    cases reply with
    | error e =>
      exact ⟨_, .error e, _, _, .bind_ofExcept hexpanded (.bind_error (.request hinsert)), .refused e, .failed _ e⟩
    | ok id =>
      cases hread : engine.answer (.findOne (.single Mapping.nativeField id) none) between with
      | mk answer after =>
        have hsaid : IsInsertion expanded _ answer := .readBack id answer
        cases answer with
        | error e =>
          exact ⟨_, .error e, _, _,
            .bind_ofExcept hexpanded (.bind (.request hinsert) (.bind_error (.request hread))), hsaid, .failed _ e⟩
        | ok stored =>
          obtain ⟨outcome, htail, htold⟩ := tells_inserted (r := r) engine entity expanded id stored after
          exact ⟨_, .ok stored, outcome, after,
            .bind_ofExcept hexpanded (.bind (.request hinsert) (.bind (.request hread) htail)), hsaid, htold⟩

/-- The exchange in which an entity is updated. -/
def updating (query : Query) (changes : Document) (answer : Except Failure (Option Value)) : Exchange :=
  ⟨.findOneAndUpdate query.document (.plain (settingFields changes)), answer⟩

theorem updateRecord_says (engine : Engine σ) (h : r.mapping.IsConsistent field) (entity : Value) (query : Query)
    (document : Document) (before : σ) :
    ∃ answer outcome after, Says engine (r.updateRecord entity query document) before
        [updating query (Mapping.updatable field document) answer] outcome after ∧
      IsTold (isShown entity [updating query (Mapping.updatable field document) answer]) answer outcome := by
  have hupdate := updateOf_ok h.identityField_eq document
  cases hanswer : engine.answer (updating query (Mapping.updatable field document) (.ok none)).request before with
  | mk answer after =>
    cases answer with
    | error e => exact ⟨.error e, _, after, .bind_ofExcept hupdate (.bind_error (.request hanswer)), .failed _ e⟩
    | ok stored =>
      have htail : ∃ outcome, Says engine (do
          let shown ← ofExcept entity.display
          record .info s!"Updated entity '{shown}' in '{r.mapping.collection}'."
          pure stored) after [] outcome after ∧
          IsTold (isShown entity [updating query (Mapping.updatable field document) (.ok stored)]) (.ok stored)
            outcome := by
        refine IsTold.exists_telling (fun e he => isShown_of_display he _) fun shown hshown => ?_
        exact ⟨_, .bind_record (.done _ _), .kept fun _ => isShown_of_display_ok hshown _⟩
      obtain ⟨outcome, htail, htold⟩ := htail
      exact ⟨.ok stored, outcome, after, .bind_ofExcept hupdate (.bind (.request hanswer) htail), htold⟩

/-- What is done to store an entity once its document and the query for it are known. -/
def storing (r : Repository α) (entity : Value) (query : Query) (document : Document) : Program (Option Value) := do
  r.opened
  let id ← ofExcept entity.id
  let existing ← if id.isNewIdentity then pure none else request (lookup query.document)
  if existing.isSome then r.updateRecord entity query document else r.insertRecord entity document

theorem storing_says (engine : Engine σ) (h : r.mapping.IsConsistent field) {entity id : Value}
    (hid : entity.id = .ok id) {document expanded : Document} (hexpanded : expandFields document = .ok expanded)
    (query : Query) (before : σ) :
    ∃ said answer outcome after, Says engine (r.storing entity query document) before said outcome after ∧
      IsAddition id.isNewIdentity query.document expanded (Mapping.updatable field document) said answer ∧
      IsTold (isShown entity said) answer outcome := by
  cases hnew : id.isNewIdentity with
  | true =>
    obtain ⟨said, answer, outcome, after, hdialogue, hsaid, htold⟩ :=
      insertRecord_says (r := r) engine entity hexpanded before
    refine ⟨said, answer, outcome, after, .bind_opened (.bind_ofExcept hid ?_), .new rfl hsaid, htold⟩
    rw [if_pos hnew]
    exact hdialogue
  | false =>
    have hknown : ¬id.isNewIdentity = true := by simp [hnew]
    cases hlook : engine.answer (lookup query.document) before with
    | mk reply between =>
      cases reply with
      | error e =>
        refine ⟨_, .error e, _, between, .bind_opened (.bind_ofExcept hid ?_), .unread rfl e, .failed _ e⟩
        rw [if_neg hknown]
        exact .bind_error (.request hlook)
      | ok existing =>
        cases existing with
        | none =>
          obtain ⟨said, answer, outcome, after, hdialogue, hsaid, htold⟩ :=
            insertRecord_says (r := r) engine entity hexpanded between
          refine ⟨_, answer, outcome, after, .bind_opened (.bind_ofExcept hid ?_), .absent rfl hsaid, htold⟩
          rw [if_neg hknown]
          exact .bind (.request hlook) hdialogue
        | some found =>
          obtain ⟨answer, outcome, after, hdialogue, htold⟩ :=
            updateRecord_says engine h entity query document between
          refine ⟨_, answer, outcome, after, .bind_opened (.bind_ofExcept hid ?_), .present rfl found answer, htold⟩
          rw [if_neg hknown]
          exact .bind (.request hlook) hdialogue

theorem addRecord_says (engine : Engine σ) (h : r.mapping.IsConsistent field) {entity id : Value}
    (hid : entity.id = .ok id) {document expanded : Document} (hdocument : r.storedDocument entity = .ok document)
    (hexpanded : expandFields document = .ok expanded) {query : Query}
    (hquery : identityQuery r.mapping entity = .ok query) (before : σ) :
    ∃ said answer outcome after, Says engine (r.addRecord entity) before said outcome after ∧
      IsAddition id.isNewIdentity query.document expanded (Mapping.updatable field document) said answer ∧
      IsTold (isShown entity said) answer outcome ∧ ∀ e, entity.display = .error e → outcome = .error e := by
  have hdoing (said : List Exchange) : ∀ e, doing "adding entity" entity = .error e → isShown entity said = false := by
    intro e he
    cases hshown : entity.display with
    | ok shown => simp [doing, hshown] at he
    | error d => exact isShown_of_display hshown said
  obtain ⟨said, answer, outcome, after, hdialogue, hsaid, htold⟩ := storing_says engine h hid hexpanded query before
  obtain ⟨told, hdialogue, htold, hlost⟩ := htold.exists_during (hdoing said) hdialogue
  refine ⟨said, answer, told, after, .bind_ofExcept (requireIdentity_of_id hid)
    (.bind_ofExcept hdocument (.bind_ofExcept hquery hdialogue)), hsaid, htold, fun e he => hlost e ?_⟩
  rw [doing, he]
  rfl

/-- An entity that fails to tell its identity is refused before anything is said. -/
theorem addRecord_refused {entity : Value} (hrequired : requireIdentity entity = .ok ()) {document : Document}
    (hdocument : r.storedDocument entity = .ok document) {e : Failure} (he : entity.id = .error e) (before : σ) :
    Says engine (r.addRecord entity) before [] (.error e) before := by
  have hquery : identityQuery r.mapping entity = .error e := by
    rw [identityQuery, he]
    rfl
  exact .bind_ofExcept hrequired (.bind_ofExcept hdocument (.bind_error (hquery ▸ .ofExcept _ _)))

theorem add_says (engine : Engine σ) (h : r.mapping.IsConsistent field) (hhydrate : r.hydrate = none)
    {entity id : Value} (hid : entity.id = .ok id) {document expanded : Document}
    (hdocument : r.storedDocument entity = .ok document) (hexpanded : expandFields document = .ok expanded)
    {query : Query} (hquery : identityQuery r.mapping entity = .ok query) (before : σ) :
    ∃ said answer outcome after, Says engine (r.add entity) before said outcome after ∧
      IsAddition id.isNewIdentity query.document expanded (Mapping.updatable field document) said answer ∧
      IsTold (isShown entity said) (answer.map fun stored => stored.map fun v => .plain v.normalized) outcome ∧
      ∀ e, entity.display = .error e → outcome = .error e := by
  obtain ⟨said, answer, outcome, after, hdialogue, hsaid, htold, hlost⟩ :=
    addRecord_says engine h hid hdocument hexpanded hquery before
  have hadd : r.add entity =
      r.addRecord entity >>= fun stored => .done (stored.map fun v => .plain v.normalized) := by
    simp only [add, restoredOption_eq hhydrate]
    rfl
  rw [hadd]
  refine ⟨said, answer, _, after, hdialogue.map _, hsaid, htold.map _, fun e he => ?_⟩
  rw [hlost e he]
  rfl

/-- An entity is looked for unless its identity is new. If it is found it is updated, else it is inserted and read
back; that is at most one write, and where the engine fails nothing more is said. Adding it comes to something exactly
if the last answer does and what is told of it can be shown, and then it comes to that answer; an entity that cannot be
shown fails for that reason after all has been said. An entity that fails to tell its identity is refused before
anything is said. -/
theorem add_conversation (hvalid : r.mapping.validate = .ok ()) (hstrategies : r.strategies = .standard)
    (hhydrate : r.hydrate = none) {entity : Value} (hidentity : entity.isIdentity = true) {flat : Document}
    (hflat : flatten entity = .ok flat) (engine : Engine σ) (s : Session σ) :
    let said := (r.add entity).conversation engine s.engine
    let t := (r.add entity).run engine s
    t.requests = said.map (·.request) ∧
    (∀ e, entity.id = .error e → said = [] ∧ t.outcome = .error e) ∧
    ∀ id, entity.id = .ok id → ∃ field query fields expanded answer,
      r.mapping.identityField = .ok field ∧ identityQuery r.mapping entity = .ok query ∧
      r.storedDocument entity = .ok (named fields) ∧ expandFields (named fields) = .ok expanded ∧
      IsAddition id.isNewIdentity query.document expanded
        (named (fields.filter fun f => f.1 != field && f.1 != Mapping.nativeField)) said answer ∧
      said.countP (·.request.isWrite) ≤ 1 ∧
      (∀ k x e, said[k]? = some x → x.failure? = some e → said.length = k + 1) ∧
      (∀ v, ⟨lookup query.document, .ok (some v)⟩ ∈ said → ∀ x ∈ said, ∀ d, x.request ≠ .insertOne d) ∧
      ((∀ v, ⟨lookup query.document, .ok (some v)⟩ ∉ said) →
        ∀ x ∈ said, ∀ q update, x.request ≠ .findOneAndUpdate q update) ∧
      (∀ found, t.outcome = .ok found ↔ isShown entity said = true ∧ ∃ stored, answer = .ok stored ∧
        found = stored.map fun v => .plain v.normalized) ∧
      (isShown entity said = true → t.outcome = answer.map fun stored => stored.map fun v => .plain v.normalized) ∧
      ∀ e, entity.display = .error e → t.outcome = .error e := by
  intro said t
  obtain ⟨field, h⟩ := Mapping.isConsistent_of_validate hvalid
  have hdocument := storedDocument_eq_written h hstrategies hflat
  have hrequired : requireIdentity entity = .ok () := by
    rw [requireIdentity, hidentity]
    rfl
  refine ⟨requests_run _ s, fun e he => ?_, fun id hid => ?_⟩
  · have hrefused : Says engine (r.add entity) s.engine [] (.error e) s.engine :=
      .bind_error (addRecord_refused hrequired hdocument he s.engine)
    exact ⟨hrefused.conversation, hrefused.outcome s.isOpen⟩
  · obtain ⟨expanded, hexpanded, _⟩ := h.exists_expanded hflat
    obtain ⟨query, hquery⟩ : ∃ query, identityQuery r.mapping entity = .ok query := ⟨_, h.identityQuery_eq hid⟩
    obtain ⟨said', answer, outcome, after, hdialogue, hsaid, htold, hlost⟩ :=
      add_says engine h hhydrate hid hdocument hexpanded hquery s.engine
    obtain rfl : said = said' := hdialogue.conversation
    rw [← hdialogue.outcome s.isOpen] at htold hlost
    rw [Mapping.updatable_named] at hsaid
    refine ⟨field, query, _, expanded, answer, h.identityField_eq, hquery, hdocument, hexpanded, hsaid,
      hsaid.countP_isWrite_le, fun k x e hx he => hsaid.ends_with_failure hx he,
      fun v hv x hx d => hsaid.not_inserts hv hx d, fun hno x hx q update => hsaid.not_updates hno hx q update,
      fun found => ?_, htold.eq_of_isShown, hlost⟩
    rw [htold.eq_ok_iff, Outcome.map_eq_ok]

/-- A shopper who is not stored yet. -/
def stranger : Value :=
  .record .data [("number", .int 7), ("name", .text "Ken"), ("orders", .int 0)] (.byAttribute "number")

/-- A shopper whose number is an entity that has lost its own identity. -/
def nameless : Value :=
  .record .data [("number", .int 8), ("name", .text "Eve"), ("orders", .int 0)]
    (.fixed (.record .data [] (.byAttribute "key")))

/-- Nobody is found, so there are three requests, one of which writes, and the answer to the last one counts, unless
the entity cannot be shown. -/
theorem add_conversation_stranger :
    let script := Script.start [.value .null] 0
    let said := (shop.add stranger).conversation scriptedEngine script
    ∃ query fields expanded, identityQuery shoppers stranger = .ok query ∧
      shop.storedDocument stranger = .ok (named fields) ∧ expandFields (named fields) = .ok expanded ∧
      IsAddition false query.document expanded
        (named (fields.filter fun f => f.1 != "shopper_number" && f.1 != Mapping.nativeField)) said (.ok none) ∧
      said.map (·.request.isWrite) = [false, true, false] ∧
      ((shop.add stranger).run scriptedEngine ⟨script, false⟩).outcome = .ok none ∧
      ((shop.add nameless).run scriptedEngine ⟨script, false⟩).requests.map (·.isWrite) = [false, true, false] ∧
      ((shop.add nameless).run scriptedEngine ⟨script, false⟩).outcome =
        .error (.missingAttribute "'Data' object" "key") := by
  intro script said
  have conversed (entity : Value) (hidentity : entity.isIdentity = true) {flat : Document}
      (hflat : flatten entity = .ok flat) :=
    add_conversation (r := shop) rfl rfl rfl hidentity hflat scriptedEngine ⟨script, false⟩
  obtain ⟨_, _, hlost⟩ := conversed nameless rfl rfl
  obtain ⟨_, _, _, _, _, _, _, _, _, _, _, _, _, _, _, _, hunshown⟩ := hlost _ rfl
  obtain ⟨_, _, hknown⟩ := conversed stranger rfl rfl
  obtain ⟨field, query, fields, expanded, answer, hfield, hquery, hfields, hexpanded, hsaid, _, _, _, _, hfound, _⟩ :=
    hknown (.int 7) rfl
  obtain rfl : "shopper_number" = field := Except.ok.inj hfield
  obtain ⟨_, stored, rfl, hnone⟩ := (hfound none).mp rfl
  obtain rfl := Option.map_eq_none_iff.mp hnone.symm
  exact ⟨query, fields, expanded, hquery, hfields, hexpanded, hsaid, rfl, rfl, rfl, hunshown _ rfl⟩

end EntityStore.Repository

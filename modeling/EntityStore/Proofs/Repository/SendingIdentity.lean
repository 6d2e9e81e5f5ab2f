import EntityStore.Proofs.Repository.Adding
import EntityStore.Proofs.Repository.Sending

namespace EntityStore

open Document Program

theorem Value.isReady_of_isNewIdentity {v : Value} (h : v.isNewIdentity = true) : v.isReady = true := by
  cases v with
  | null | text s => rfl
  | _ => exact nomatch h

/-- The query for an identity is stored as it is if the identity is. -/
theorem isReady_queryForIdentity (field : String) (id : Value) :
    (queryForIdentity field id).document.isReady = id.isReady := by
  rw [queryForIdentity]
  cases ho : ObjectId.ofValue? id with
  | none => exact Value.isReady_single field id
  | some o =>
    have hid : id.isReady = true := by cases id <;> first | rfl | cases ho
    have heither : (Query.any [.field Mapping.nativeField (.literally (.objectId o)),
        .field field (.literally id)]).document.isReady = true := by
      refine Query.isReady_document _ ?_
      simp [Query.fieldConditions, Query.fieldConditionsOf, Condition.document, hid, Value.isReady]
    simp only
    split
    · exact hid.symm
    · exact heither.trans hid.symm

/-- Whether the engine tells of a document that it inserts the identifier that the document holds, or one that it
made for it. -/
def Exchange.TellsIdentifier (x : Exchange) : Prop :=
  ∀ d id, x = ⟨.insertOne d, .ok id⟩ → (∃ o, id = .objectId o) ∨ Dictionary.get? (.text Mapping.nativeField) d = some id

namespace Request

/-- Whether the query for an identity is sent with a request, and all else that is sent is stored as it is. -/
def IsAbout (m : Mapping) (v : Value) (q : Request) : Prop :=
  ∃ query, identityQuery m v = .ok query ∧ query.document ∈ q.parts ∧
    ∀ part ∈ q.parts, part = query.document ∨ part.isReady = true

variable {m : Mapping} {field : String} {v id : Value} {q : Request}

theorem isAbout_of_parts {query : Query} {rest : List Value} (hquery : identityQuery m v = .ok query)
    (hparts : q.parts = query.document :: rest) (hrest : ∀ part ∈ rest, part.isReady = true) : q.IsAbout m v := by
  refine ⟨query, hquery, ?_, ?_⟩
  · rw [hparts]
    exact List.mem_cons_self
  · rw [hparts]
    exact List.forall_mem_cons.mpr ⟨.inl rfl, fun part hpart => .inr (hrest part hpart)⟩

/-- All of a request about an identity is stored as it is if the identity is. -/
theorem IsAbout.isReady_iff (h : m.IsConsistent field) (hid : v.id = .ok id) (hq : q.IsAbout m v) :
    q.IsReady ↔ id.isReady = true := by
  obtain ⟨query, hquery, hmem, hrest⟩ := hq
  obtain rfl := Except.ok.inj ((h.identityQuery_eq hid).symm.trans hquery)
  rw [← isReady_queryForIdentity field id]
  refine ⟨fun hready => hready _ hmem, fun hready part hpart => ?_⟩
  rcases hrest part hpart with rfl | hpart
  · exact hready
  · exact hpart

end Request

/-- What is sent by an operation that may be told an identity: all of it is stored as it is, unless it is about that
identity, and if the identity is not stored as it is, something of that kind is sent if anything is. -/
structure IsSentFor (m : Mapping) (told : Option Value) (said : List Exchange) : Prop where
  isReady_or_isAbout : ∀ x ∈ said, x.request.IsReady ∨ ∃ v, told = some v ∧ x.request.IsAbout m v
  exists_isAbout : ∀ v id, told = some v → v.id = .ok id → id.isReady = false →
    said = [] ∨ ∃ x ∈ said, x.request.IsAbout m v

namespace IsSentFor

variable {m : Mapping} {said : List Exchange}

theorem of_isReady (h : ∀ x ∈ said, x.request.IsReady) : IsSentFor m none said :=
  ⟨fun x hx => .inl (h x hx), fun _ _ htold => nomatch htold⟩

theorem of_isAbout {v : Value} (h : ∀ x ∈ said, x.request.IsAbout m v) : IsSentFor m (some v) said := by
  refine ⟨fun x hx => .inr ⟨v, rfl, h x hx⟩, ?_⟩
  rintro _ _ ⟨⟩ _ _
  cases said with
  | nil => exact .inl rfl
  | cons x said => exact .inr ⟨x, List.mem_cons_self, h x List.mem_cons_self⟩

end IsSentFor

namespace Repository

variable {α σ : Type} {r : Repository α} {engine : Engine σ} {field : String}

section

variable {expanded changes : Document} {said : List Exchange} {answer : Except Failure (Option Value)}
  (htells : ∀ x ∈ said, x.TellsIdentifier)
include htells

theorem IsInsertion.isReady (h : IsInsertion expanded said answer) (hexpanded : expanded.IsReady) :
    ∀ x ∈ said, x.request.IsReady := by
  have hinsert : (Request.insertOne expanded).IsReady :=
    List.forall_mem_singleton.mpr ((Value.isReady_plain expanded).mpr hexpanded)
  cases h with
  | refused e => exact List.forall_mem_singleton.mpr hinsert
  | readBack id answer =>
    have hid : id.isReady = true := by
      rcases htells _ List.mem_cons_self expanded id rfl with ⟨o, rfl⟩ | hget
      · rfl
      · exact hexpanded.get? hget
    refine List.forall_mem_cons.mpr ⟨hinsert, List.forall_mem_singleton.mpr ?_⟩
    exact List.forall_mem_singleton.mpr ((Value.isReady_single _ id).trans hid)

/-- The lookup and the update are about the identity; so is what is said first, unless the identity is new. -/
theorem IsAddition.isReady_or_isAbout {m : Mapping} {entity : Value} {isNew : Bool} {query : Query}
    (hquery : identityQuery m entity = .ok query) (hexpanded : expanded.IsReady) (hchanges : changes.IsReady)
    (h : IsAddition isNew query.document expanded changes said answer) :
    (∀ x ∈ said, x.request.IsReady ∨ x.request.IsAbout m entity) ∧
    (isNew = false → ∃ x ∈ said, x.request.IsAbout m entity) := by
  have hlook : (lookup query.document).IsAbout m entity :=
    Request.isAbout_of_parts hquery rfl (List.forall_mem_singleton.mpr rfl)
  cases h with
  | new hnew h =>
    refine ⟨fun x hx => .inl (h.isReady htells hexpanded x hx), fun hknown => ?_⟩
    exact absurd (hnew.symm.trans hknown) Bool.false_ne_true.symm
  | unread _ e =>
    exact ⟨List.forall_mem_singleton.mpr (.inr hlook), fun _ => ⟨_, List.mem_cons_self, hlook⟩⟩
  | absent _ h =>
    obtain ⟨_, htells⟩ := List.forall_mem_cons.mp htells
    refine ⟨List.forall_mem_cons.mpr ⟨.inr hlook, fun x hx => ?_⟩, fun _ => ⟨_, List.mem_cons_self, hlook⟩⟩
    exact .inl (h.isReady htells hexpanded x hx)
  | present _ found answer =>
    refine ⟨List.forall_mem_cons.mpr ⟨.inr hlook, List.forall_mem_singleton.mpr (.inr ?_)⟩,
      fun _ => ⟨_, List.mem_cons_self, hlook⟩⟩
    refine Request.isAbout_of_parts hquery rfl (List.forall_mem_singleton.mpr ?_)
    exact (Value.isReady_plain _).mpr (isReady_settingFields hchanges)

end

theorem asksAbout_contains (id : Value) : (r.contains id).Asks (Request.IsAbout r.mapping id) := by
  refine Asks.bind_ofExcept fun _ _ => Asks.bind_ofExcept fun query hquery => ?_
  refine Asks.bind (Asks.during _ (Asks.bind_opened (Asks.request ?_))) fun _ => trivial
  exact Request.isAbout_of_parts hquery rfl (List.forall_mem_singleton.mpr rfl)

theorem asksAbout_remove (id : Value) : (r.remove id).Asks (Request.IsAbout r.mapping id) := by
  refine Asks.bind_ofExcept fun _ _ => Asks.bind_ofExcept fun query hquery => ?_
  refine Asks.bind (Asks.during _ (Asks.bind_opened (Asks.request ?_))) fun _ => ?_
  · exact Request.isAbout_of_parts hquery rfl (List.forall_mem_nil _)
  · exact Asks.bind_ofExcept fun _ _ => Asks.bind_ofExcept fun _ _ => Asks.record _ _

section

variable (hstrategies : r.strategies = .standard)
include hstrategies

theorem asksAbout_find (id : Value) (fields : Option Selection) :
    (r.find id fields).Asks (Request.IsAbout r.mapping id) := by
  rw [find, findRecord, hstrategies]
  refine Asks.bind ?_ fun _ => Asks.ofExcept _
  refine Asks.bind_ofExcept fun _ _ => Asks.bind_ofExcept fun query hquery => ?_
  refine Asks.bind_ofReported fun projection hprojection => Asks.bind_ofExcept fun _ _ => ?_
  refine Asks.bind_ofExcept fun _ _ => Asks.bind_record ?_
  refine Asks.bind (Asks.during _ (Asks.bind_opened (Asks.request ?_))) fun found => ?_
  · exact Request.isAbout_of_parts hquery rfl (List.forall_mem_singleton.mpr (isReady_projection hprojection))
  · split
    · exact trivial
    · exact trivial

/-- Nothing is said to the engine about an entity that does not tell its identity or cannot be stored. -/
theorem add_silent_or_says (h : r.mapping.IsConsistent field) (engine : Engine σ) (entity : Value) (state : σ) :
    (r.add entity).conversation engine state = [] ∨
    ∃ id query document expanded answer, entity.id = .ok id ∧ identityQuery r.mapping entity = .ok query ∧
      r.storedDocument entity = .ok document ∧ expandFields document = .ok expanded ∧
      IsAddition id.isNewIdentity query.document expanded (Mapping.updatable field document)
        ((r.add entity).conversation engine state) answer := by
  rw [add, conversation_bind_made]
  cases hrequired : requireIdentity entity with
  | error e =>
    rw [addRecord, hrequired]
    exact .inl rfl
  | ok _ =>
    cases hdocument : r.storedDocument entity with
    | error e =>
      rw [addRecord, hrequired, hdocument]
      exact .inl rfl
    | ok document =>
      cases hid : entity.id with
      | error e =>
        exact .inl (addRecord_refused hrequired hdocument hid state).conversation
      | ok id =>
        obtain ⟨expanded, hexpanded⟩ := exists_expandFields h hstrategies hdocument
        obtain ⟨said, answer, outcome, after, hdialogue, hsaid, _⟩ :=
          addRecord_says engine h hid hdocument hexpanded (h.identityQuery_eq hid) state
        rw [hdialogue.conversation]
        exact .inr ⟨id, _, document, expanded, answer, rfl, h.identityQuery_eq hid, rfl, hexpanded, hsaid⟩

theorem isSentFor_add (h : r.mapping.IsConsistent field) (entity : Value) (state : σ)
    (htells : ∀ x ∈ (r.add entity).conversation engine state, x.TellsIdentifier) :
    IsSentFor r.mapping (some entity) ((r.add entity).conversation engine state) := by
  rcases add_silent_or_says hstrategies h engine entity state with
    hsilent | ⟨id, query, document, expanded, answer, hid, hquery, hdocument, hexpanded, hsaid⟩
  · rw [hsilent]
    exact .of_isAbout (List.forall_mem_nil _)
  · have hready := isReady_storedDocument h hstrategies hdocument
    obtain ⟨hall, hfirst⟩ := hsaid.isReady_or_isAbout htells hquery (isReady_expandFields hready hexpanded)
      (isReady_updatable hready field)
    refine ⟨fun x hx => (hall x hx).imp_right fun habout => ⟨entity, rfl, habout⟩, ?_⟩
    rintro _ id' ⟨⟩ hid' hunready
    obtain rfl := Except.ok.inj (hid.symm.trans hid')
    cases hnew : id.isNewIdentity with
    | false => exact .inr (hfirst hnew)
    | true => exact absurd (hunready.symm.trans (Value.isReady_of_isNewIdentity hnew)) Bool.false_ne_true

end

end Repository

namespace Operation

/-- The identity that an operation looks for. -/
def identified? : Operation → Option Value
  | .find id _ | .contains id | .add id | .remove id => some id
  | _ => none

/-- Whether an operation looks for an identity that is not stored as it is. -/
def LooksForUnready (op : Operation) : Prop :=
  ∃ v id, op.identified? = some v ∧ v.id = .ok id ∧ id.isReady = false

variable {α σ : Type} {r : Repository α} {engine : Engine σ}

theorem isSentFor_identified {field : String} (h : r.mapping.IsConsistent field)
    (hstrategies : r.strategies = .standard) (op : Operation) (state : σ)
    (htells : ∀ x ∈ (op.program r).conversation engine state, x.TellsIdentifier) :
    IsSentFor r.mapping op.identified? ((op.program r).conversation engine state) := by
  cases op with
  | find id fields => exact .of_isAbout ((Repository.asksAbout_find hstrategies id fields).conversation state)
  | findBy filter sort fields =>
    exact .of_isReady ((Repository.asksReady_findBy hstrategies filter sort fields).conversation state)
  | findByDistinct fields filter sort =>
    exact .of_isReady ((Repository.asksReady_findByDistinct hstrategies fields filter sort).conversation state)
  | findAll request => exact .of_isReady ((Repository.asksReady_findAll hstrategies request).conversation state)
  | count filter => exact .of_isReady ((Repository.asksReady_count hstrategies filter).conversation state)
  | contains id => exact .of_isAbout ((Repository.asksAbout_contains id).conversation state)
  | add entity => exact Repository.isSentFor_add hstrategies h entity state htells
  | addAll entities => exact .of_isReady ((Repository.asksReady_addAll h hstrategies entities).conversation state)
  | remove id => exact .of_isAbout ((Repository.asksAbout_remove id).conversation state)
  | removeAll filter => exact .of_isReady ((Repository.asksReady_removeAll hstrategies filter).conversation state)

/-- All that an operation sends is stored as it is, unless it looks for an identity that is not. Then the query for
that identity is sent, with the identity as it was told, if anything is sent at all; all else is stored as it is. -/
theorem sent_isReady_iff (hvalid : r.mapping.validate = .ok ()) (hstrategies : r.strategies = .standard)
    (op : Operation) (engine : Engine σ) (s : Session σ)
    (htells : ∀ x ∈ (op.program r).conversation engine s.engine, x.TellsIdentifier) :
    let sent := ((op.program r).run engine s).requests
    ((∀ q ∈ sent, q.IsReady) ↔ sent = [] ∨ ¬op.LooksForUnready) ∧
    ∀ q ∈ sent, q.IsReady ∨ ∃ v, op.identified? = some v ∧ q.IsAbout r.mapping v := by
  intro sent
  obtain ⟨field, h⟩ := Mapping.isConsistent_of_validate hvalid
  have hsent := isSentFor_identified h hstrategies op s.engine htells
  have hrequests : sent = _ := requests_run (op.program r) s
  rw [hrequests]
  refine ⟨⟨fun hready => ?_, ?_⟩, List.forall_mem_map.mpr hsent.isReady_or_isAbout⟩
  · rw [or_iff_not_imp_right, not_not]
    rintro ⟨v, id, htold, hid, hunready⟩
    rcases hsent.exists_isAbout v id htold hid hunready with hsilent | ⟨x, hx, habout⟩
    · rw [hsilent]
      rfl
    · have hid := (habout.isReady_iff h hid).mp (hready _ (List.mem_map_of_mem hx))
      exact absurd (hunready.symm.trans hid) Bool.false_ne_true
  · rintro (hsilent | hlooks)
    · rw [hsilent]
      exact List.forall_mem_nil _
    · refine List.forall_mem_map.mpr fun x hx => ?_
      rcases hsent.isReady_or_isAbout x hx with hready | ⟨v, htold, habout⟩
      · exact hready
      · obtain ⟨query, hquery, _⟩ := id habout
        obtain ⟨id, hid, _⟩ := Outcome.bind_eq_ok.mp hquery
        refine (habout.isReady_iff h hid).mpr ?_
        by_contra hunready
        exact hlooks ⟨v, id, htold, hid, Bool.eq_false_iff.mpr hunready⟩

/-- A shopper is looked for by a number, which is stored as it is, or by an address, which is not. -/
theorem sent_isReady_iff_shop :
    let session : Session Script := ⟨.start [] 0, false⟩
    let sent (id : Value) := ((shop.find (.entityId id) none).run scriptedEngine session).requests
    (∀ q ∈ sent (.int 7), q.IsReady) ∧ ¬∀ q ∈ sent (.url "https://a.example/"), q.IsReady := by
  intro session sent
  have hiff (id : Value) := sent_isReady_iff (r := shop) rfl rfl (.find (.entityId id) none) scriptedEngine session
  obtain ⟨hnumber, _⟩ := hiff (.int 7) (List.forall_mem_singleton.mpr fun d o hd => nomatch hd)
  obtain ⟨haddress, _⟩ := hiff (.url "https://a.example/") (List.forall_mem_singleton.mpr fun d o hd => nomatch hd)
  refine ⟨hnumber.mpr (.inr ?_), fun hready => ?_⟩
  · rintro ⟨v, id, ⟨⟩, ⟨⟩, hunready⟩
    exact nomatch hunready
  · rcases haddress.mp hready with hsilent | hlooks
    · exact nomatch hsilent
    · exact hlooks ⟨_, _, rfl, rfl, rfl⟩

end Operation

end EntityStore

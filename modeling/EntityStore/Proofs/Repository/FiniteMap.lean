import EntityStore.Proofs.Repository.Writing

namespace EntityStore

open Program

inductive Command (m : Mapping) where
  | add (e : KeyedEntity m)
  | addAll (es : List (KeyedEntity m))
  | remove (id : Value) (k : IdentityKey) (tells : id.id = .ok k.value)
  | removeAll

namespace Command

variable {m : Mapping}

def apply (s : EntityMap) : Command m → EntityMap
  | .add e => e.store s
  | .addAll es => es.foldl KeyedEntity.store s
  | .remove _ k _ => Function.update s k none
  | .removeAll => fun _ => none

/-- The session after a command, whether it succeeds or not. -/
def perform {σ α : Type} (engine : Engine σ) (r : Repository α) (session : Session σ) :
    Command r.mapping → Session σ
  | .add e => ((r.add e.value).run engine session).session
  | .addAll es => ((r.addAll (.list (es.map (·.value)))).run engine session).session
  | .remove id _ _ => ((r.remove id).run engine session).session
  | .removeAll => ((r.removeAll .absent).run engine session).session

end Command

namespace Repository

variable {α : Type} {r : Repository α} {field : String} (habits : EngineHabits)

/-- A command leads from documents that keep a map to documents that keep the map it leads to. -/
theorem perform_keeps (h : r.IsPlain field) {s : EntityMap} {session : Session Collection}
    (hs : r.mapping.Keeps field session.engine.documents s) (command : Command r.mapping) :
    r.mapping.Keeps field (command.perform (Collection.engine habits) r session).engine.documents
      (command.apply s) := by
  obtain ⟨c, isOpen⟩ := session
  have reached {β : Type} {p : Program β} {t : EntityMap}
      (hleaves : Leaves (Collection.engine habits) p c fun after => r.mapping.Keeps field after.documents t) :
      r.mapping.Keeps field (p.run (Collection.engine habits) ⟨c, isOpen⟩).session.engine.documents t := by
    obtain ⟨_, after, hends, hkeeps⟩ := hleaves
    rw [hends.state]
    exact hkeeps
  cases command with
  | add e => exact reached (add_keeps habits h hs e)
  | addAll es => exact reached (addAll_keeps habits h hs es)
  | remove id k tells => exact reached (remove_keeps habits h hs tells)
  | removeAll => exact reached (removeAll_keeps habits field)

theorem performAll_keeps (h : r.IsPlain field) {s : EntityMap} {session : Session Collection}
    (hs : r.mapping.Keeps field session.engine.documents s) (commands : List (Command r.mapping)) :
    r.mapping.Keeps field
      (commands.foldl (Command.perform (Collection.engine habits) r) session).engine.documents
      (commands.foldl Command.apply s) := by
  induction commands generalizing s session with
  | nil => exact hs
  | cons command commands ih => exact ih (perform_keeps habits h hs command)

/-- Whether an entity is stored is told of any identity. -/
theorem contains_ends (h : r.IsPlain field) {s : EntityMap} {c : Collection}
    (hs : r.mapping.Keeps field c.documents s) (k : IdentityKey) :
    Ends (Collection.engine habits) (r.contains (.entityId k.value)) c (.ok (s k).isSome) c := by
  obtain ⟨found, hfound, hsome⟩ := findOne_isSome habits hs k (some nativeFieldOnly)
  refine Ends.bind_ofExcept rfl ?_
  refine Ends.bind_ofExcept (identityQuery_eq h rfl) ?_
  refine Ends.bind ((Ends.bind (Ends.opened _ _ c) (Ends.request hfound)).during _) ?_
  rw [← hsome]
  exact Ends.done _ c

theorem find_ends (h : r.IsPlain field) {k : IdentityKey} (htold : k.IsTold) (c : Collection) :
    Ends (Collection.engine habits) (r.find (.entityId k.value) none) c
      (.ok ((c.documents.find? (Document.hasIdentity field k)).map fun d => .plain (.plain d.normalized)))
      c := by
  have hself := (IdentityKey.value_beq_value k k).mpr rfl
  obtain ⟨shown, hshown⟩ := IdentityKey.exists_display htold
  have hspelled : (Query.field field (.literally k.value)).document.spelled.isOk = true := by
    simpa [Query.document, Condition.document, Value.single, Value.plain] using IdentityKey.isOk_spelled_value.mpr htold
  obtain ⟨sought, hsought⟩ := Outcome.exists_of_isOk hspelled
  have hanswer : (Collection.engine habits).answer
      (.findOne (Query.field field (.literally k.value)).document (some .null)) c =
      (.ok ((c.documents.find? (Document.hasIdentity field k)).map .plain), c) := by
    simp only [Collection.engine, Collection.answer, Query.document, Condition.document,
      Mapping.isSelected_eq_hasIdentity hself]
    rfl
  have hrecord : Ends (Collection.engine habits) (r.findRecord (.entityId k.value) none) c
      (.ok ((c.documents.find? (Document.hasIdentity field k)).map .plain)) c := by
    refine Ends.bind_ofExcept rfl ?_
    refine Ends.bind_ofExcept (identityQuery_eq h rfl) ?_
    refine Ends.bind_ofReported (outcome_projection_none h.strategies) ?_
    refine Ends.bind_ofExcept hshown ?_
    refine Ends.bind_ofExcept hsought ?_
    refine Ends.bind (Ends.record _ _ c) ?_
    refine Ends.bind ((Ends.bind (Ends.opened _ _ c) (Ends.request hanswer)).during _) ?_
    cases (c.documents.find? (Document.hasIdentity field k)) with
    | none => exact Ends.bind (Ends.record _ _ c) (Ends.done _ c)
    | some d => exact Ends.done _ c
  refine Ends.bind hrecord ?_
  rw [restoredOption_eq h.hydrate, Option.map_map]
  exact Ends.ofExcept _ c

/-- What is told before the engine is asked cannot be told of an identity that has too many digits. -/
theorem find_untold (h : r.IsPlain field) {k : IdentityKey} (huntold : ¬k.IsTold) (c : Collection) :
    Ends (Collection.engine habits) (r.find (.entityId k.value) none) c
      (.error (.tooLongToShow IntegerText.mostDigits)) c := by
  have hshown : (Value.entityId k.value).display = .error (.tooLongToShow IntegerText.mostDigits) :=
    IdentityKey.display_of_not_isTold huntold
  refine Ends.bind_error ?_
  refine Ends.bind_ofExcept rfl ?_
  refine Ends.bind_ofExcept (identityQuery_eq h rfl) ?_
  refine Ends.bind_ofReported (outcome_projection_none h.strategies) ?_
  exact Ends.bind_error (hshown ▸ Ends.ofExcept _ c)

/-- After any commands on an empty collection, each identity has one stored document at most, and what
is found under it are the fields of the entity that was last added, made plain, or nothing if there is no
such entity or it was removed since. Of a number of too many digits it is only told whether it is stored. -/
theorem find_performed (r : Repository α) (hvalid : r.mapping.validate = .ok ())
    (hgiven : r.mapping.generatesIds = false)
    (hnative : ∀ f ∈ r.mapping.fields, f.2 ≠ Mapping.nativeField ∧ ¬"_id.".toList <+: f.2.toList)
    (hydrate : r.hydrate = none) (strategies : r.strategies = .standard) (habits : EngineHabits)
    (commands : List (Command r.mapping)) (session : Session Collection)
    (hempty : session.engine.documents = []) (k : IdentityKey) :
    ∃ field, r.mapping.identityField = .ok field ∧
      ∃ after, commands.foldl (Command.perform (Collection.engine habits) r) session = after ∧
      (after.engine.documents.filter (Document.hasIdentity field k)).length ≤ 1 ∧
      ((r.contains (.entityId k.value)).run (Collection.engine habits) after).outcome =
        .ok (commands.foldl Command.apply (fun _ => none) k).isSome ∧
      (¬k.IsTold → ((r.find (.entityId k.value) none).run (Collection.engine habits) after).outcome =
        .error (.tooLongToShow IntegerText.mostDigits)) ∧
      (k.IsTold → match commands.foldl Command.apply (fun _ => none) k with
      | none => ((r.find (.entityId k.value) none).run (Collection.engine habits) after).outcome = .ok none
      | some flat => ∃ d,
        ((r.find (.entityId k.value) none).run (Collection.engine habits) after).outcome =
          .ok (some (.plain (.plain d))) ∧
        (∃ v, d.stored? field = some v ∧ (v == k.value) = true) ∧
        ∀ f ∈ r.mapping.fields, f.2 ≠ field → d.stored? f.2 = some (flat.valueOf f.1).normalized) := by
  obtain ⟨field, hconsistent⟩ := Mapping.isConsistent_of_validate hvalid
  have h : r.IsPlain field := ⟨⟨hconsistent, hgiven, fun f hf =>
    Path.apart_native (hnative f hf).1 (hnative f hf).2⟩, hydrate, strategies⟩
  have hstart : r.mapping.Keeps field session.engine.documents fun _ => none := by
    rw [hempty]
    exact Mapping.keeps_nil _ field
  have hkeeps := performAll_keeps habits h hstart commands
  refine ⟨field, hconsistent.identityField_eq, _, rfl, (hkeeps k).length_le, ?_⟩
  generalize commands.foldl (Command.perform (Collection.engine habits) r) session = after at hkeeps ⊢
  obtain ⟨c, isOpen⟩ := after
  refine ⟨(contains_ends habits h hkeeps k).outcome isOpen, fun huntold => ?_, fun htold => ?_⟩
  · exact (find_untold habits h huntold c).outcome isOpen
  have hfind := (find_ends habits h htold c).outcome isOpen
  cases hk : commands.foldl Command.apply (fun _ => none) k with
  | none =>
    rw [hkeeps.find?_none hk] at hfind
    exact hfind
  | some flat =>
    obtain ⟨d, hd, hstores⟩ := hkeeps.find?_some hk
    rw [hd] at hfind
    refine ⟨d.normalized, hfind, ?_, fun f hf hne => ?_⟩
    · obtain ⟨v, hv, hkey⟩ := hstores.identity
      rw [Document.stored?_normalized, hv]
      exact ⟨_, rfl, by rw [IdentityKey.normalized_of_beq hkey]; exact hkey⟩
    · rw [Document.stored?_normalized, hstores.others f hf hne]
      rfl

/-- Members, whose number and name are stored inside one field. -/
def members : Mapping :=
  ⟨"members", [("key", "card.number"), ("name", "card.name"), ("tags", "tags")], "key", false⟩

def member (n : Int) (name : String) : KeyedEntity members where
  value := .record .data [("key", .int n), ("name", .text name)] (.byAttribute "key")
  key := .number n
  flat := [(.text "key", .int n), (.text "name", .text name)]
  tells := rfl
  flattens := rfl
  holds := by simp [Document.valueOf, members, Dictionary.get?, IdentityKey.value]

def club : Repository Unit := ⟨"club", members, none, .standard⟩

/-- Members that come twice in one list and are stored again, and one that leaves. -/
def changes : List (Command members) :=
  [.addAll [member 7 "Ken", member 8 "Ann", member 7 "Kenneth"], .add (member 9 "Bo"),
    .remove (.entityId (.int 8)) (.number 8) rfl, .add (member 7 "Ken K.")]

/-- A number that is one digit too long to be shown. -/
def longNumber : Int := (10 ^ IntegerText.mostDigits : Nat)

/-- Members are found again unless their number is too long. -/
theorem find_performed_members : (∃ after,
    changes.foldl (Command.perform (Collection.engine .plain) club) ⟨⟨[], [], 0⟩, false⟩ = after ∧
    (after.engine.documents.filter (Document.hasIdentity "card.number" (.number 7))).length ≤ 1 ∧
    (∃ d, ((club.find (.entityId (.int 7)) none).run (Collection.engine .plain) after).outcome =
        .ok (some (.plain (.plain d))) ∧
      d.stored? "card.name" = some (.text "Ken K.") ∧ d.stored? "tags" = some .null) ∧
    ((club.find (.entityId (.int 8)) none).run (Collection.engine .plain) after).outcome = .ok none) ∧
    ∃ after, Command.perform (Collection.engine .plain) club ⟨⟨[], [], 0⟩, false⟩ (.add (member longNumber "Cy")) =
        after ∧
      ((club.contains (.entityId (.int longNumber))).run (Collection.engine .plain) after).outcome = .ok true ∧
      ((club.find (.entityId (.int longNumber)) none).run (Collection.engine .plain) after).outcome =
        .error (.tooLongToShow IntegerText.mostDigits) := by
  have hfields : ∀ f ∈ members.fields, f.2 ≠ Mapping.nativeField ∧ ¬"_id.".toList <+: f.2.toList := by
    decide
  have found (commands : List (Command members)) := find_performed club rfl rfl hfields rfl rfl .plain commands
    ⟨⟨[], [], 0⟩, false⟩ rfl
  have htold (n : Nat) (hn : n < 10) : (IdentityKey.number n).IsTold :=
    Nat.lt_of_lt_of_le hn (Nat.le_self_pow (by decide) 10)
  have huntold : ¬(IdentityKey.number longNumber).IsTold := Nat.lt_irrefl _
  -- The number of the last member is a variable here, as nothing is to compute with the digits of the long one.
  have missed (n : Int) (hn : ¬(IdentityKey.number n).IsTold) : ∃ after,
      Command.perform (Collection.engine .plain) club ⟨⟨[], [], 0⟩, false⟩ (.add (member n "Cy")) = after ∧
      ((club.contains (.entityId (.int n))).run (Collection.engine .plain) after).outcome = .ok true ∧
      ((club.find (.entityId (.int n)) none).run (Collection.engine .plain) after).outcome =
        .error (.tooLongToShow IntegerText.mostDigits) := by
    obtain ⟨_, _, _, rfl, _, hcontains, hfind, _⟩ := found [.add (member n "Cy")] (.number n)
    have hstored : ((member n "Cy").store (fun _ => none) (.number n)).isSome = true := by
      rw [KeyedEntity.store, member, Function.update_self]
      rfl
    exact ⟨_, rfl, hcontains.trans (congrArg Except.ok hstored), hfind hn⟩
  refine ⟨?_, missed longNumber huntold⟩
  obtain ⟨field, hfield, after, rfl, hlength, _, _, hken⟩ := found changes (.number 7)
  obtain ⟨_, _, _, rfl, _, _, _, hann⟩ := found changes (.number 8)
  obtain rfl : "card.number" = field := Except.ok.inj hfield
  obtain ⟨d, hd, _, hothers⟩ := hken (htold 7 (by decide))
  refine ⟨_, rfl, hlength, ⟨d, hd, ?_, ?_⟩, hann (htold 8 (by decide))⟩
  · exact hothers ("name", "card.name") (by decide) (by decide)
  · exact hothers ("tags", "tags") (by decide) (by decide)

end Repository

end EntityStore

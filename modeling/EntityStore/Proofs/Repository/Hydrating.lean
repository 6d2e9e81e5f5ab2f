import EntityStore.Engine.Scripted
import EntityStore.Proofs.Engine.Dialogue
import EntityStore.Proofs.Paging.Windows
import EntityStore.Proofs.Repository.Serving

namespace EntityStore

open Program

variable {α β σ : Type}

/-- What is found, with the documents of which entities are made replaced by these. -/
def Found.madeInto (makes : Value → Bool) (entityOf : Value → α) : Found α → Found α
  | .plain v => if makes v then .entity (entityOf v) else .plain v
  | .entity a => .entity a

theorem Value.isDocument_normalized (v : Value) : v.normalized.isDocument = v.isDocument := by
  cases v <;> rfl

/-- A page with other content in the same place. -/
def Page.replaced (f : α → β) (page : Page α) : Page β :=
  ⟨page.content.map f, page.total, page.number, page.pages, page.sort, page.filter, page.fields, page.size⟩

theorem Page.ofRequest_map (f : α → β) (content : List α) (total : Value) (p : PageRequest) :
    Page.ofRequest (content.map f) total p = (Page.ofRequest content total p).map (Page.replaced f) := by
  rw [ofRequest, ofRequest]
  cases p.pagesFor total <;> rfl

namespace Repository

/-- What belongs on a page of all that is got for it: of distinct values, these are all there are. -/
def portion (p : PageRequest) (xs : List β) : List β :=
  if (Selection.namesOf p.distinct).isEmpty then xs else window p xs

theorem portion_map {γ : Type} (p : PageRequest) (f : β → γ) (xs : List β) :
    portion p (xs.map f) = (portion p xs).map f := by
  rw [portion, portion]
  split
  · rfl
  · exact PageRequest.slice_map f _ _ xs

/-- The documents that are found of entities once they were added together. -/
def addedRecords (r : Repository α) (entities : Value) : Program (List Value) := do
  let items ← ofExcept entities.elements
  ofExcept (items.forM requireIdentity)
  if items.isEmpty then pure []
  else
    let field ← ofExcept r.mapping.identityField
    let plans ← r.planAll field items
    r.writeAll plans
    let filter ← ofReported (r.writtenFilter plans)
    r.findRecords (.filter filter) none none

theorem restoredOption_eq_mapM (r : Repository α) (found : Option Value) :
    r.restoredOption found = found.mapM r.restored := by
  cases found with
  | none => rfl
  | some v =>
    rw [Option.mapM_some]
    cases h : r.restored v <;> simp [restoredOption, h]

end Repository

namespace Operation

/-- What an operation gets from the engine, before it tells what that stands for. -/
abbrev Records : Operation → Type
  | .find _ _ | .add _ => Option Value
  | .findBy _ _ _ | .findByDistinct _ _ _ | .addAll _ => List Value
  | .findAll _ => Value × List Value
  | .count _ => Int
  | .contains _ => Bool
  | .remove _ | .removeAll _ => Unit

def records (r : Repository α) : (op : Operation) → Program op.Records
  | .find id fields => r.findRecord id fields
  | .findBy filter sort fields => r.findRecords filter sort fields
  | .findByDistinct fields filter sort => r.distinctValues fields filter sort
  | .findAll none => do
    let found ← r.findRecords .absent none none
    pure (.int found.length, found)
  | .findAll (some p) =>
    if (Selection.namesOf p.distinct).isEmpty then r.pageRecords p
    else do
      let values ← r.distinctValues p.distinct p.filter p.sort
      pure (.int values.length, values)
  | .count filter => r.count filter
  | .contains id => r.contains id
  | .add entity => r.addRecord entity
  | .addAll entities => r.addedRecords entities
  | .remove id => r.remove id
  | .removeAll filter => r.removeAll filter

/-- The values among what an operation gets that it tells something of. -/
def values : (op : Operation) → op.Records → List Value
  | .find _ _, found | .add _, found => found.toList
  | .findBy _ _ _, found | .findByDistinct _ _ _, found | .addAll _, found => found
  | .findAll _, found => found.2
  | .count _, _ | .contains _, _ | .remove _, _ | .removeAll _, _ => []

/-- Whether an operation makes an entity of a value: of distinct values only of documents. -/
def makes : Operation → Value → Bool
  | .findByDistinct _ _ _ => Value.isDocument
  | .findAll (some p) => if (Selection.namesOf p.distinct).isEmpty then fun _ => true else Value.isDocument
  | _ => fun _ => true

/-- What a value stands for that an operation gets. -/
def restored (r : Repository α) (op : Operation) (v : Value) : Except Failure (Found α) :=
  if op.makes v then r.restored v else .ok (.plain v.normalized)

/-- What an operation tells of all that it gets, if it tells something of each value. -/
def told (tell : Value → Except Failure (Found α)) : (op : Operation) → op.Records → Except Failure (op.Result α)
  | .find _ _, found | .add _, found => found.mapM tell
  | .findBy _ _ _, found | .findByDistinct _ _ _, found | .addAll _, found => found.mapM tell
  | .findAll none, (total, found) => do
    let content ← found.mapM tell
    pure (Page.single content total)
  | .findAll (some p), (total, found) => do
    let content ← found.mapM tell
    Page.ofRequest (Repository.portion p content) total p
  | .count _, n => .ok n
  | .contains _, found => .ok found
  | .remove _, _ | .removeAll _, _ => .ok ()

/-- What an operation comes to, with all that it found replaced. -/
def replaced (f : Found α → Found α) : (op : Operation) → op.Result α → op.Result α
  | .find _ _, found | .add _, found => found.map f
  | .findBy _ _ _, found | .findByDistinct _ _ _, found | .addAll _, found => found.map f
  | .findAll _, page => page.replaced f
  | .count _, n => n
  | .contains _, found => found
  | .remove _, _ | .removeAll _, _ => ()

section

variable {tell tell' : Value → Except Failure (Found α)} {f : Found α → Found α}

theorem mapM_option_of_map {found : Option Value} (h : ∀ v ∈ found.toList, tell' v = (tell v).map f) :
    found.mapM tell' = (found.mapM tell).map (Option.map f) := by
  cases found with
  | none => rfl
  | some v =>
    rw [Option.mapM_some, Option.mapM_some, h v List.mem_cons_self]
    cases tell v <;> rfl

/-- What is done to all that is told of values is done to what an operation comes to. -/
theorem told_of_map {op : Operation} {x : op.Records} (h : ∀ v ∈ op.values x, tell' v = (tell v).map f) :
    op.told tell' x = (op.told tell x).map (op.replaced f) := by
  cases op with
  | find id fields => exact mapM_option_of_map h
  | findBy filter sort fields => exact Outcome.mapM_of_map h
  | findByDistinct fields filter sort => exact Outcome.mapM_of_map h
  | findAll request =>
    obtain ⟨total, found⟩ := x
    have hcontent : found.mapM tell' = (found.mapM tell).map (List.map f) := Outcome.mapM_of_map h
    cases request with
    | none =>
      rw [told, told, hcontent]
      cases found.mapM tell <;> rfl
    | some p =>
      rw [told, told, hcontent]
      cases found.mapM tell with
      | error e => rfl
      | ok content =>
        change Page.ofRequest (Repository.portion p (content.map f)) total p = _
        rw [Repository.portion_map, Page.ofRequest_map]
        rfl
  | count filter => rfl
  | contains id => rfl
  | add entity => exact mapM_option_of_map h
  | addAll entities => exact Outcome.mapM_of_map h
  | remove id => rfl
  | removeAll filter => rfl

end

section

variable (r : Repository α)

theorem findAll_none_eq_records :
    r.findAll none = records r (.findAll none) >>= fun x =>
      Program.ofExcept (told (restored r (.findAll none)) (.findAll none) x) := by
  rw [Repository.findAll, Repository.findBy, records, bind_assoc, bind_assoc]
  refine bind_congr fun found => ?_
  rw [pure_bind, told]
  change (Program.ofExcept (found.mapM r.restored) >>= _) = Program.ofExcept (found.mapM r.restored >>= _)
  cases hcontent : found.mapM r.restored with
  | error e => rfl
  | ok content =>
    have hlength : found.length = content.length := (Outcome.mapM_eq_ok_iff.mp hcontent).length_eq
    change Program.done (Page.single content (.int content.length)) = .done (Page.single content (.int found.length))
    rw [hlength]

/-- A page of entities is cut by the engine, a page of distinct values once they are restored. -/
theorem findAll_some_eq_records (p : PageRequest) :
    r.findAll (some p) = records r (.findAll (some p)) >>= fun x =>
      Program.ofExcept (told (restored r (.findAll (some p))) (.findAll (some p)) x) := by
  have hmade : restored r (.findAll (some p)) = r.made p := by
    funext v
    rw [restored, makes, Repository.made]
    split
    · rfl
    · rfl
  rw [hmade]
  by_cases hdistinct : Selection.namesOf p.distinct = []
  · have hdocuments : (Selection.namesOf p.distinct).isEmpty = true := List.isEmpty_iff.mpr hdistinct
    rw [Repository.findAll_of_nil hdistinct, Repository.findPage, records, if_pos hdocuments]
    refine bind_congr fun found => ?_
    obtain ⟨total, found⟩ := found
    rw [told, Repository.made_of_nil hdistinct]
    dsimp only
    cases found.mapM r.restored with
    | error e => rfl
    | ok content =>
      change Program.ofExcept (Page.ofRequest content total p) =
        Program.ofExcept (Page.ofRequest (Repository.portion p content) total p)
      rw [Repository.portion, if_pos hdocuments]
  · have hvalues : ¬(Selection.namesOf p.distinct).isEmpty = true := fun h => hdistinct (List.isEmpty_iff.mp h)
    rw [Repository.findAll_of_ne_nil hdistinct, Repository.findByDistinct, records, if_neg hvalues, bind_assoc,
      bind_assoc]
    refine bind_congr fun found => ?_
    rw [pure_bind, told, Repository.made_of_ne_nil hdistinct]
    cases hcontent : found.mapM r.restoredValue with
    | error e => rfl
    | ok content =>
      have hlength : found.length = content.length := (Outcome.mapM_eq_ok_iff.mp hcontent).length_eq
      change Program.ofExcept (Page.ofRequest (Repository.window p content) (.int content.length) p) =
        Program.ofExcept (Page.ofRequest (Repository.portion p content) (.int found.length) p)
      rw [Repository.portion, if_neg hvalues, hlength]

theorem addAll_eq_records (entities : Value) :
    r.addAll entities = r.addedRecords entities >>= fun found => Program.ofExcept (found.mapM r.restored) := by
  rw [Repository.addAll, Repository.addedRecords, bind_assoc]
  refine bind_congr fun items => ?_
  rw [bind_assoc]
  refine bind_congr fun _ => ?_
  split
  · rfl
  · simp only [bind_assoc]
    rfl

/-- An operation gets what it needs from the engine, and only then tells what that stands for. -/
theorem program_eq_records (op : Operation) :
    op.program r = op.records r >>= fun x => Program.ofExcept (op.told (restored r op) x) := by
  cases op with
  | find id fields =>
    rw [program, Repository.find]
    simp only [Repository.restoredOption_eq_mapM]
    rfl
  | findBy filter sort fields => rfl
  | findByDistinct fields filter sort => rfl
  | findAll request =>
    cases request with
    | none => exact findAll_none_eq_records r
    | some p => exact findAll_some_eq_records r p
  | count filter => exact (bind_pure _).symm
  | contains id => exact (bind_pure _).symm
  | add entity =>
    rw [program, Repository.add]
    simp only [Repository.restoredOption_eq_mapM]
    rfl
  | addAll entities => exact addAll_eq_records r entities
  | remove id => exact (bind_pure _).symm
  | removeAll filter => exact (bind_pure _).symm

/-- What an operation gets from the engine has nothing to do with what is made of it. -/
theorem records_hydrate (hydrate : Option (Value → Except Failure α)) (op : Operation) :
    op.records { r with hydrate := hydrate } = op.records r := by
  have hplanAll (field : String) (entities : List Value) :
      ({ r with hydrate := hydrate } : Repository α).planAll field entities = r.planAll field entities := by
    induction entities with
    | nil => rfl
    | cons entity rest ih =>
      rw [Repository.planAll, ih]
      rfl
  cases op with
  | findAll request => cases request <;> rfl
  | addAll entities =>
    rw [records, records, Repository.addedRecords]
    simp only [hplanAll]
    rfl
  | _ => rfl

end

theorem makes_normalized (op : Operation) (v : Value) : op.makes v.normalized = op.makes v := by
  cases op with
  | findByDistinct fields filter sort => exact v.isDocument_normalized
  | findAll request =>
    cases request with
    | none => rfl
    | some p =>
      rw [makes]
      split
      · rfl
      · exact v.isDocument_normalized
  | _ => rfl

variable {r : Repository α} {make : Value → Except Failure α} {entityOf : Value → α}

/-- An entity is made of the plain document that is yielded otherwise. -/
theorem restored_made {op : Operation} {v : Value}
    (h : op.makes v = true → make v.normalized = .ok (entityOf v.normalized)) :
    restored { r with hydrate := some make } op v =
      (restored { r with hydrate := none } op v).map (Found.madeInto op.makes entityOf) := by
  by_cases hv : op.makes v = true
  · rw [restored, restored, if_pos hv, if_pos hv]
    simp [Repository.restored, h hv, Found.madeInto, makes_normalized, hv, Except.map]
  · rw [restored, restored, if_neg hv, if_neg hv]
    simp [Found.madeInto, makes_normalized, hv, Except.map]

/-- Whether a repository makes entities makes no difference to its requests, its records and the session it leaves.
Where an entity can be made of each document that an operation gets, what it comes to is what it comes to without
entities, with each of these documents replaced by the entity that is made of it. -/
theorem made_agrees (r : Repository α) (make : Value → Except Failure α) (op : Operation) (engine : Engine σ)
    (s : Session σ) :
    let got := (op.records r).run engine s
    let plain := (op.program { r with hydrate := none }).run engine s
    let made := (op.program { r with hydrate := some make }).run engine s
    made.events = plain.events ∧ made.requests = plain.requests ∧ made.session = plain.session ∧
    ∀ entityOf : Value → α,
      (∀ x, got.outcome = .ok x → ∀ v ∈ op.values x, op.makes v = true →
        make v.normalized = .ok (entityOf v.normalized)) →
      made.outcome = plain.outcome.map (op.replaced (Found.madeInto op.makes entityOf)) := by
  intro got plain made
  have hprogram (hydrate : Option (Value → Except Failure α)) :
      (op.program { r with hydrate := hydrate }).run engine s =
        ⟨got.outcome >>= op.told (restored { r with hydrate := hydrate } op), got.events, got.session⟩ := by
    rw [program_eq_records, run_bind_made, records_hydrate]
  have hplain : plain = _ := hprogram none
  have hmade : made = _ := hprogram (some make)
  rw [hplain, hmade]
  refine ⟨rfl, rfl, rfl, fun entityOf hmakes => ?_⟩
  cases hgot : got.outcome with
  | error e => rfl
  | ok x => exact told_of_map fun v hv => restored_made (hmakes x hgot v hv)

/-- How many fields a document has. -/
def fieldCount : Value → Nat
  | .document _ fields => fields.length
  | _ => 0

/-- Makes a number of a document, and refuses all else. -/
def counted (v : Value) : Except Failure Nat :=
  if v.isDocument then .ok (fieldCount v) else .error (.raised "TypeError" "not a document")

/-- Of a document and a number that are the distinct values of a field, only the document is made into an entity. -/
theorem made_agrees_distinct :
    let op : Operation := .findAll (some ⟨1, 10, none, .absent, none, some ⟨[.text "orders"]⟩⟩)
    let session : Session Script := ⟨.start [.value (.list [.plain [(.text "total", .int 1)], .int 5])] 0, false⟩
    let bare : Repository Nat := ⟨"shop", shoppers, none, .standard⟩
    let counting : Repository Nat := ⟨"shop", shoppers, some counted, .standard⟩
    let plain := (op.program bare).run scriptedEngine session
    let made := (op.program counting).run scriptedEngine session
    made.requests = plain.requests ∧ made.requests.length = 1 ∧
      made.outcome.map (·.content) = .ok [.entity 1, .plain (.int 5)] := by
  intro op session bare counting plain made
  obtain ⟨_, hrequests, _, hmade⟩ := made_agrees bare counted op scriptedEngine session
  have houtcome : made.outcome = plain.outcome.map _ :=
    hmade fieldCount fun x _ v _ hv => if_pos (v.isDocument_normalized.trans hv)
  refine ⟨hrequests, rfl, ?_⟩
  rw [houtcome]
  rfl

end Operation

end EntityStore

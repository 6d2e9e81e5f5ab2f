import EntityStore.Engine.Run
import EntityStore.Proofs.Document.Placing
import EntityStore.Proofs.Query.Operators
import EntityStore.Proofs.Value.Atom
import EntityStore.Repository.Writing

namespace EntityStore

/-- What is left to an engine: the identifiers that it makes, what a projection leaves of a document, and
the order in which sort keys put documents. -/
structure EngineHabits where
  freshId : Nat → ObjectId
  projected : Value → Document → Document
  arranged : Value → List Document → List Document

/-- Identifiers are counted, and documents are neither cut nor sorted. -/
def EngineHabits.plain : EngineHabits := ⟨ObjectId.ofNumber, fun _ d => d, fun _ ds => ds⟩

/-- The documents of a collection, those of the open cursor, and how many identifiers were made. -/
structure Collection where
  documents : List Document
  cursor : List Document
  issued : Nat

namespace Document

def isSelected (query : Value) (d : Document) : Bool := QueryDocument.holds d.fulfils query

theorem isSelected_atom (field : String) {v : Value} (hv : v.isAtom = true) (d : Document) :
    isSelected (.single field v) d = ((d.stored? field).getD .null == v) :=
  (QueryDocument.holds_field d.fulfils field (.literally v) (Value.isListed_of_isAtom hv)).trans
    (d.fulfils_literally field (Value.isDocument_of_isAtom hv))

/-- The document after an update that sets fields, if nothing stands in their way. -/
def updated? (d update : Document) : Option Document :=
  match Dictionary.get? (.text "$set") update with
  | some (.document _ fields) => setFields fields d
  | _ => none

theorem updated?_settingFields (fields d : Document) :
    d.updated? (settingFields fields) = setFields fields d := by
  simp [updated?, settingFields, Dictionary.get?]

/-- The fields of a query that have to equal a value. -/
def equalities (query : Document) : Document :=
  query.filter fun f => match f.2 with
    | .document _ fields => !areOperators fields
    | _ => true

theorem equalities_atom (field : String) {v : Value} (hv : v.isAtom = true) :
    equalities [(.text field, v)] = named [(field, v)] := by
  have hno := Value.isDocument_of_isAtom hv
  cases v <;> simp_all [equalities, named, Value.isDocument]

end Document

def replaceFirst {α : Type} (selects : α → Bool) (new : α) : List α → List α
  | [] => []
  | x :: xs => if selects x then new :: xs else x :: replaceFirst selects new xs

/-- How many documents were inserted, found, and inserted for want of one to update. -/
structure Tally where
  inserted : Nat
  matched : Nat
  upserted : Nat

namespace Tally

def add (s t : Tally) : Tally :=
  ⟨s.inserted + t.inserted, s.matched + t.matched, s.upserted + t.upserted⟩

def counts (t : Tally) : BulkCounts := ⟨.int t.inserted, .int t.matched, .int t.upserted⟩

end Tally

namespace Collection

/-- The failure of an update that something stands in the way of. -/
def refusal : Failure := .raised "WriteError" "Cannot create field in element"

variable (habits : EngineHabits)

def project (projection : Value) (d : Document) : Document :=
  match projection with
  | .null => d
  | p => habits.projected p d

theorem map_project_null (ds : List Document) : ds.map (project habits .null) = ds :=
  List.map_id ds

/-- What a search finds among some documents. -/
def found (query projection keys : Value) (ds : List Document) : List Document :=
  let selected := (ds.filter fun d => d.isSelected query).map (project habits projection)
  if keys.isTruthy then habits.arranged keys selected else selected

def freshId (c : Collection) : ObjectId × Collection :=
  (habits.freshId c.issued, { c with issued := c.issued + 1 })

/-- Puts a document at the end, with its own identifier or a fresh one. -/
def insert (d : Document) (c : Collection) : Value × Collection :=
  match Dictionary.get? (.text Mapping.nativeField) d with
  | some id => (id, { c with documents := c.documents ++ [d] })
  | none =>
    let id := Value.objectId (c.freshId habits).1
    let d : Document := (.text Mapping.nativeField, id) :: d
    (id, { (c.freshId habits).2 with documents := c.documents ++ [d] })

/-- Updates the first document that a query selects, if there is one. -/
def updateFirst (query : Value) (update : Document) (c : Collection) :
    Option (Except Failure (Document × Collection)) :=
  (c.documents.find? fun d => d.isSelected query).map fun d =>
    match d.updated? update with
    | some e =>
      .ok (e, { c with documents := replaceFirst (fun d => d.isSelected query) e c.documents })
    | none => .error refusal

/-- The document that an update inserts for want of one: what the query asks it to equal, updated. -/
def upserted? (query update : Document) : Option Document := do
  let d ← Document.setFields (Document.equalities query) []
  d.updated? update

def write (w : BulkWrite) (c : Collection) : Except Failure (Tally × Collection) :=
  match w with
  | .insert d => .ok (⟨1, 0, 0⟩, (c.insert habits d).2)
  | .upsert query update =>
    match c.updateFirst (.plain query) update with
    | some (.ok (_, c)) => .ok (⟨0, 1, 0⟩, c)
    | some (.error e) => .error e
    | none =>
      match upserted? query update with
      | some d => .ok (⟨0, 0, 1⟩, (c.insert habits d).2)
      | none => .error refusal

/-- Carries out writes one after the other. Those after one that fails are left out only if the order
matters. -/
def writeAll (ordered : Bool) : List BulkWrite → Collection → Except Failure Tally × Collection
  | [], c => (.ok ⟨0, 0, 0⟩, c)
  | w :: ws, c =>
    match c.write habits w with
    | .ok (first, c) => ((writeAll ordered ws c).1.map first.add, (writeAll ordered ws c).2)
    | .error e => (.error e, if ordered then c else (writeAll ordered ws c).2)

/-- The distinct values of a field, those in arrays one by one. -/
def distinctValues (field : String) (ds : List Document) : List Value :=
  EntityStore.distinct (ds.flatMap fun d => match d.stored? field with
    | some (.list items) => items
    | some v => [v]
    | none => [])

def answer (r : Request) (c : Collection) : Except Failure r.Reply × Collection :=
  match r with
  | .findOne query projection =>
    (.ok ((c.documents.find? fun d => d.isSelected query).map fun d =>
      .plain (project habits (projection.getD .null) d)), c)
  | .find query projection =>
    (.ok (), { c with cursor := (c.documents.filter fun d => d.isSelected query).map (project habits projection) })
  | .sort keys => (.ok (), { c with cursor := habits.arranged keys c.cursor })
  | .skip n => (.ok (), { c with cursor := c.cursor.drop n.toNat })
  | .limit n => (.ok (), { c with cursor := if n = 0 then c.cursor else c.cursor.take n.natAbs })
  | .fetch => (.ok (c.cursor.map .plain), c)
  | .count query => (.ok (.int (c.documents.countP fun d => d.isSelected query)), c)
  | .distinct field query =>
    (.ok (.list (distinctValues field (c.documents.filter fun d => d.isSelected query))), c)
  | .findOneAndUpdate query update =>
    match update with
    | .document _ update =>
      match c.updateFirst query update with
      | none => (.ok none, c)
      | some (.ok (d, c)) => (.ok (some (.plain d)), c)
      | some (.error e) => (.error e, c)
    | _ => (.error refusal, c)
  | .insertOne d => (.ok (c.insert habits d).1, (c.insert habits d).2)
  | .insertMany ds => (.ok (), ds.foldl (fun c d => (c.insert habits d).2) c)
  | .bulkWrite writes ordered =>
    ((c.writeAll habits ordered writes).1.map Tally.counts, (c.writeAll habits ordered writes).2)
  | .deleteOne query =>
    (.ok (.int (if c.documents.any fun d => d.isSelected query then 1 else 0)),
      { c with documents := c.documents.eraseP fun d => d.isSelected query })
  | .deleteMany query =>
    (.ok (.int (c.documents.countP fun d => d.isSelected query)),
      { c with documents := c.documents.filter fun d => !d.isSelected query })
  | .drop => (.ok (), { c with documents := [] })

def engine : Engine Collection := ⟨answer habits, freshId habits⟩

end Collection

end EntityStore

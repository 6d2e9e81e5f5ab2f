import EntityStore.Engine.Run
import EntityStore.Value.Access

namespace EntityStore

/-- An answer of a script: a value, a failure, or a value of which a cursor fails when its documents
are fetched. -/
inductive Response where
  | value (v : Value)
  | failure (e : Failure)
  | failingCursor (v : Value) (e : Failure)

/-- The answers to come, how many native identifiers were made, and what the open cursor yields. -/
structure Script where
  responses : List Response
  issued : Nat
  cursor : Except Failure (List Value)

namespace Script

/-- A script at its start, where so many identifiers were made before. -/
def start (responses : List Response) (issued : Nat) : Script := ⟨responses, issued, .ok []⟩

def freshId (s : Script) : ObjectId × Script :=
  (ObjectId.ofNumber (s.issued + 1), { s with issued := s.issued + 1 })

/-- Takes the next answer, or the one of an empty collection. -/
def take {α : Type} (read : Value → Except Failure α) (default : α) (s : Script) :
    Except Failure α × Script :=
  match s.responses with
  | [] => (.ok default, s)
  | .failure e :: rest => (.error e, { s with responses := rest })
  | .value v :: rest => (read v, { s with responses := rest })
  | .failingCursor v _ :: rest => (read v, { s with responses := rest })

/-- A value as something that may be missing. -/
def asOption : Value → Option Value
  | .null => none
  | v => some v

/-- The counts of a bulk of writes by their names; missing ones are zero. -/
def asCounts (v : Value) : Except Failure BulkCounts := do
  let inserted ← v.entry "inserted" (some (.int 0))
  let matched ← v.entry "matched" (some (.int 0))
  let upserted ← v.entry "upserted" (some (.int 0))
  pure ⟨inserted, matched, upserted⟩

/-- The counts of a bulk of writes that came to nothing. -/
def noCounts : BulkCounts := ⟨.int 0, .int 0, .int 0⟩

def openCursor (s : Script) : Except Failure Unit × Script :=
  match s.responses with
  | [] => (.ok (), { s with cursor := .ok [] })
  | .value v :: rest => (.ok (), ⟨rest, s.issued, v.elements⟩)
  | .failure e :: rest => (.error e, { s with responses := rest })
  | .failingCursor _ e :: rest => (.ok (), ⟨rest, s.issued, .error e⟩)

/-- The identifier under which a document is inserted: its own, or a fresh one. -/
def insert (document : Document) (s : Script) : Except Failure Value × Script :=
  match s.responses, Dictionary.get? (.text "_id") document with
  | [], none =>
    let (o, s) := s.freshId
    (.ok (.objectId o), s)
  | _, id => take .ok (id.getD .null) s

def answer : (r : Request) → Script → Except Failure r.Reply × Script
  | .findOne _ _, s => take (fun v => .ok (asOption v)) none s
  | .find _ _, s => openCursor s
  | .sort _, s => (.ok (), s)
  | .skip _, s => (.ok (), s)
  | .limit _, s => (.ok (), s)
  | .fetch, s => (s.cursor, s)
  | .count _, s => take .ok (.int 0) s
  | .distinct _ _, s => take .ok (.list []) s
  | .findOneAndUpdate _ _, s => take (fun v => .ok (asOption v)) none s
  | .insertOne document, s => insert document s
  | .insertMany _, s => take (fun _ => .ok ()) () s
  | .bulkWrite _ _, s => take asCounts noCounts s
  | .deleteOne _, s => take .ok (.int 0) s
  | .deleteMany _, s => take .ok (.int 0) s
  | .drop, s => take (fun _ => .ok ()) () s

end Script

def scriptedEngine : Engine Script := ⟨Script.answer, Script.freshId⟩

end EntityStore

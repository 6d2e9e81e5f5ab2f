import EntityStore.Engine.Request
import EntityStore.Log

namespace EntityStore

/-- A program ends with a result or a failure, leaves a record, opens a collection if it is not
open yet, takes a fresh native identifier, or asks the engine, which may fail to answer. -/
inductive Program (α : Type) : Type where
  | done (a : α)
  | fail (e : Failure)
  | note (r : LogRecord) (next : Program α)
  | openCollection (database collection : String) (next : Program α)
  | freshId (next : ObjectId → Program α)
  | ask (r : Request) (next : Except Failure r.Reply → Program α)

namespace Program

variable {α β γ : Type}

/-- Goes on with the result of a program. -/
def andThen (f : α → Program β) : Program α → Program β
  | .done a => f a
  | .fail e => .fail e
  | .note r next => .note r (andThen f next)
  | .openCollection database collection next => .openCollection database collection (andThen f next)
  | .freshId next => .freshId fun o => andThen f (next o)
  | .ask r next => .ask r fun reply => andThen f (next reply)

instance : Monad Program where
  pure := .done
  bind p f := andThen f p

theorem andThen_done (p : Program α) : andThen .done p = p := by
  induction p with
  | done a => rfl
  | fail e => rfl
  | note r next ih => simp [andThen, ih]
  | openCollection db c next ih => simp [andThen, ih]
  | freshId next ih => simp [andThen, ih]
  | ask r next ih => simp [andThen, ih]

theorem andThen_andThen (f : α → Program β) (g : β → Program γ) (p : Program α) :
    andThen g (andThen f p) = andThen (fun a => andThen g (f a)) p := by
  induction p with
  | done a => rfl
  | fail e => rfl
  | note r next ih => simp [andThen, ih]
  | openCollection db c next ih => simp [andThen, ih]
  | freshId next ih => simp [andThen, ih]
  | ask r next ih => simp [andThen, ih]

instance : LawfulMonad Program :=
  LawfulMonad.mk' Program andThen_done (fun _ _ => rfl) (fun p f g => andThen_andThen f g p)

def record (level : LogLevel) (message : String) : Program Unit := .note ⟨level, message⟩ (.done ())

def ofExcept : Except Failure α → Program α
  | .ok a => .done a
  | .error e => .fail e

/-- Leaves the records of a computation and takes over its outcome. -/
def ofReported (x : Reported α) : Program α :=
  x.records.foldr (fun r p => .note r p) (ofExcept x.outcome)

def newId : Program ObjectId := .freshId .done

/-- Makes sure that a collection is open. -/
def opened (database collection : String) : Program Unit :=
  .openCollection database collection (.done ())

/-- Asks the engine; its failure is that of the program. -/
def request (r : Request) : Program r.Reply := .ask r ofExcept

/-- Leaves a record of the level of errors before a program fails. If its message cannot be told, the
program fails for that reason instead. -/
def recordingFailure (message : Failure → Except Failure String) : Program α → Program α
  | .done a => .done a
  | .fail e =>
    match message e with
    | .ok text => .note ⟨.error, text⟩ (.fail e)
    | .error f => .fail f
  | .note r next => .note r (recordingFailure message next)
  | .openCollection database collection next =>
    .openCollection database collection (recordingFailure message next)
  | .freshId next => .freshId fun o => recordingFailure message (next o)
  | .ask r next => .ask r fun reply => recordingFailure message (next reply)

def failureMessage (context : String) (e : Failure) : String := s!"{context}: {e.message}"

/-- Tells what was being done when a program failed. -/
def during (context : Except Failure String) (p : Program α) : Program α :=
  recordingFailure (fun e => do
    let context ← context
    pure (failureMessage s!"MongoDB error during {context}" e)) p

end Program

end EntityStore

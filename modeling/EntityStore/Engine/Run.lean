import EntityStore.Engine.Program

namespace EntityStore

/-- An engine with states `σ`: how it answers requests, and the native identifiers it makes. -/
structure Engine (σ : Type) where
  answer : (r : Request) → σ → Except Failure r.Reply × σ
  freshId : σ → ObjectId × σ

/-- The state of an engine, and whether the collection has been opened. -/
structure Session (σ : Type) where
  engine : σ
  isOpen : Bool

inductive Event where
  | opened (database collection : String)
  | called (r : Request)
  | logged (r : LogRecord)

/-- The outcome of a run, what happened in it, and the session after it. -/
structure Trace (σ α : Type) where
  outcome : Except Failure α
  events : List Event
  session : Session σ

namespace Trace

variable {σ α : Type}

/-- Puts an event before what happened. -/
def after (event : Event) (t : Trace σ α) : Trace σ α := { t with events := event :: t.events }

def requests (t : Trace σ α) : List Request :=
  t.events.filterMap fun e => match e with
    | .called r => some r
    | _ => none

def records (t : Trace σ α) : List LogRecord :=
  t.events.filterMap fun e => match e with
    | .logged r => some r
    | _ => none

end Trace

namespace Program

variable {σ α : Type}

def run (engine : Engine σ) : Program α → Session σ → Trace σ α
  | .done a, s => ⟨.ok a, [], s⟩
  | .fail e, s => ⟨.error e, [], s⟩
  | .note r next, s => (run engine next s).after (.logged r)
  | .openCollection database collection next, s =>
    if s.isOpen then run engine next s
    else (run engine next { s with isOpen := true }).after (.opened database collection)
  | .freshId next, s =>
    let (o, state) := engine.freshId s.engine
    run engine (next o) { s with engine := state }
  | .ask r next, s =>
    let (reply, state) := engine.answer r s.engine
    (run engine (next reply) { s with engine := state }).after (.called r)

end Program

end EntityStore

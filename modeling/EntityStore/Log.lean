import EntityStore.Failure

namespace EntityStore

inductive LogLevel where
  | debug
  | info
  | warning
  | error
  | critical
  deriving DecidableEq, Repr

namespace LogLevel

def name : LogLevel → String
  | .debug => "DEBUG"
  | .info => "INFO"
  | .warning => "WARNING"
  | .error => "ERROR"
  | .critical => "CRITICAL"

def rank : LogLevel → Nat
  | .debug => 0
  | .info => 1
  | .warning => 2
  | .error => 3
  | .critical => 4

def all : List LogLevel := [.debug, .info, .warning, .error, .critical]

/-- Other names of levels; nothing is set apart from below the least of them. -/
def otherNames : List (String × LogLevel) := [("WARN", .warning), ("FATAL", .critical), ("NOTSET", .debug)]

def ofName? (s : String) : Option LogLevel :=
  match all.find? fun level => level.name == s with
  | some level => some level
  | none => (otherNames.find? fun p => p.1 == s).map (·.2)

end LogLevel

structure LogRecord where
  level : LogLevel
  message : String
  deriving DecidableEq, Repr

namespace LogRecord

/-- Whether a record is at least as important as a level. -/
def reaches (level : LogLevel) (r : LogRecord) : Bool := decide (level.rank ≤ r.level.rank)

end LogRecord

/-- What a computation comes to, and the records that it left. A failing one keeps its records. -/
structure Reported (α : Type) where
  records : List LogRecord
  outcome : Except Failure α

namespace Reported

variable {α β γ : Type}

def ofExcept (outcome : Except Failure α) : Reported α := ⟨[], outcome⟩

/-- Goes on with the result of a computation. -/
def andThen (x : Reported α) (f : α → Reported β) : Reported β :=
  match x.outcome with
  | .error e => ⟨x.records, .error e⟩
  | .ok a => ⟨x.records ++ (f a).records, (f a).outcome⟩

instance : Monad Reported where
  pure a := ofExcept (.ok a)
  bind := andThen

theorem andThen_pure (x : Reported α) : x.andThen (fun a => ofExcept (.ok a)) = x := by
  cases x with
  | mk records outcome => cases outcome <;> simp [andThen, ofExcept]

theorem andThen_andThen (x : Reported α) (f : α → Reported β) (g : β → Reported γ) :
    (x.andThen f).andThen g = x.andThen fun a => (f a).andThen g := by
  cases x with
  | mk records outcome =>
    cases outcome with
    | error e => rfl
    | ok a =>
      cases h : (f a).outcome <;> simp [andThen, h]

instance : LawfulMonad Reported :=
  LawfulMonad.mk' Reported andThen_pure (fun a f => by simp [bind, pure, andThen, ofExcept]) andThen_andThen

def note (level : LogLevel) (message : String) : Reported Unit := ⟨[⟨level, message⟩], .ok ()⟩

end Reported

end EntityStore

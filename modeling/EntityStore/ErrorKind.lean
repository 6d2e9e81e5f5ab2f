import EntityStore.Failure

namespace EntityStore

inductive ErrorKind where
  | repository
  | fieldMapping
  | configuration
  | unsupportedOperation
  | typeContract
  | engine
  deriving DecidableEq, Repr

namespace ErrorKind

/-- The message of an error that is given none. -/
def defaultMessage : ErrorKind → String
  | .repository => "Repository operation failed."
  | .fieldMapping => "The field has no associated storage field."
  | .configuration => "Invalid repository configuration."
  | .unsupportedOperation => "Operation not supported by the storage engine."
  | .typeContract => "Value does not implement the Identity contract."
  | .engine => ""

/-- The kinds of this library. -/
def ofLibrary : List ErrorKind :=
  [.repository, .fieldMapping, .configuration, .unsupportedOperation, .typeContract]

/-- Whether an error of the first kind is one of the second kind as well. -/
def isA : ErrorKind → ErrorKind → Bool
  | .engine, k => k == .engine
  | _, .repository => true
  | j, k => j == k

/-- Whether errors of a kind say that a value has the wrong type. -/
def concernsType : ErrorKind → Bool
  | .typeContract => true
  | _ => false

end ErrorKind

/-- The kind of a failure that callers tell apart from others. -/
def Failure.kind? : Failure → Option ErrorKind
  | .notMapping _ | .unnamedCollection | .identityUnmapped _ _ | .sharedStorage _ _ _
  | .nestedStorage _ _ _ | .identityElsewhere _ _ => some .configuration
  | .unmappedField _ _ => some .fieldMapping
  | .notIdentity _ => some .typeContract
  | .severalDistinctFields _ => some .unsupportedOperation
  | _ => none

end EntityStore

namespace EntityStore

/-- The types whose items are reached by their places. -/
inductive SequenceKind where
  | list
  | tuple
  | text
  | bytes
  deriving DecidableEq, Repr

inductive Failure where
  | notMapping (type : String)
  | unnamedCollection
  | identityUnmapped (identity collection : String)
  | sharedStorage (first second storage : String)
  | nestedStorage (storage outer owner : String)
  | identityElsewhere (identity storage : String)
  | unmappedField (field collection : String)
  | notIdentity (type : String)
  | severalDistinctFields (names : String)
  | noDistinctField
  | notDirection (literal : String)
  | directionExpected (type : String)
  | emptyFieldName
  | textExpected (kind : String)
  | collectionExpected (kind : String)
  | notFilter (type : String)
  | notIterable (type : String)
  | notCallable (type : String)
  | missingArgument (type : String)
  | surplusArguments (type : String) (given : Nat)
  | notUnpackable (type : String)
  | notMeasurable (type : String)
  | notSubscriptable (type : String)
  | typeNotSubscriptable (name : String)
  | placeExpected (sequence : SequenceKind) (type : String)
  | placeTooLarge (type : String)
  | outOfRange (sequence : SequenceKind)
  | unhashable (type : String)
  | notSerializable (type : String)
  | notCopyable (type : String)
  | noAttributes
  | unreadablePattern (reason : String)
  | repetitionTooLarge
  | contraryOptions
  | bytesInPath
  | missingAttribute (owner name : String)
  | missingKey (literal : String)
  | pathThroughScalar (field part : String)
  | fieldSetTwice (field : String)
  | notInteger (literal : String)
  | tooManyDigits (limit count : Nat)
  | tooLongToShow (limit : Nat)
  | notNumber (type : String)
  | undefinedInteger
  | infiniteInteger
  | numberTooLarge
  | notDivisible (left right : String)
  | quotientOverflow
  | divisionByZero
  | quotientByZero
  | frozenAttribute (literal : String)
  | optionGivenTwice (name : String)
  | raised (kind message : String)
  deriving DecidableEq, Repr

/-- What the places in a sequence are called when another thing is given. -/
def SequenceKind.placeRefusal (type : String) : SequenceKind → String
  | .list => s!"list indices must be integers or slices, not {type}"
  | .tuple => s!"tuple indices must be integers or slices, not {type}"
  | .text => s!"string indices must be integers, not '{type}'"
  | .bytes => s!"byte indices must be integers or slices, not {type}"

def SequenceKind.rangeRefusal : SequenceKind → String
  | .list => "list index out of range"
  | .tuple => "tuple index out of range"
  | .text => "string index out of range"
  | .bytes => "index out of range"

namespace Failure

def message : Failure → String
  | .notMapping type => s!"mapping must be an instance of Mapping, got {type}"
  | .unnamedCollection => "Mapping must declare a non-empty collection name."
  | .identityUnmapped identity collection =>
    s!"Identity field '{identity}' is not a key of the mapping for collection '{collection}'."
  | .sharedStorage first second storage =>
    s!"Logical fields '{first}' and '{second}' both map to storage field '{storage}'."
  | .nestedStorage storage outer owner =>
    s!"Storage field '{storage}' is nested inside storage field '{outer}' "
      ++ s!"of logical field '{owner}'."
  | .identityElsewhere identity storage =>
    s!"Auto-generated identity '{identity}' must be stored in '_id', not '{storage}'."
  | .unmappedField field collection =>
    s!"Property '{field}' has no associated storage field in collection '{collection}'."
  | .notIdentity type => s!"{type} does not implement Identity (id() and __str__)."
  | .severalDistinctFields names =>
    s!"Distinct queries support a single field, got {names}."
  | .noDistinctField => "A distinct query needs exactly one field."
  | .notDirection literal => s!"{literal} is not a valid Order"
  | .directionExpected type => s!"order must be an Order, got {type}"
  | .emptyFieldName => "Filter field name must be a non-empty string"
  | .textExpected kind => s!"Filter '{kind}' requires a string value"
  | .collectionExpected kind => s!"Filter '{kind}' requires a list/set/tuple"
  | .notFilter type => s!"filter must be a Filter, got {type}"
  | .notIterable type => s!"'{type}' object is not iterable"
  | .notCallable type => s!"'{type}' object is not callable"
  | .missingArgument type =>
    s!"{type}.__init__() missing 1 required positional argument: 'x'"
  | .surplusArguments type given =>
    s!"{type}.__init__() takes 2 positional arguments but {given} were given"
  | .notUnpackable type => s!"cannot unpack non-iterable {type} object"
  | .notMeasurable type => s!"object of type '{type}' has no len()"
  | .notSubscriptable type => s!"'{type}' object is not subscriptable"
  | .typeNotSubscriptable name => s!"type '{name}' is not subscriptable"
  | .placeExpected sequence type => sequence.placeRefusal type
  | .placeTooLarge type => s!"cannot fit '{type}' into an index-sized integer"
  | .outOfRange sequence => sequence.rangeRefusal
  | .unhashable type => s!"unhashable type: '{type}'"
  | .notSerializable type => s!"Cannot automatically serialize entity: {type}"
  | .notCopyable type => s!"cannot pickle '{type}' object"
  | .noAttributes => "vars() argument must have __dict__ attribute"
  | .unreadablePattern reason => reason
  | .repetitionTooLarge => "the repetition number is too large"
  | .contraryOptions => "ASCII and UNICODE flags are incompatible"
  | .bytesInPath => "a bytes-like object is required, not 'str'"
  | .missingAttribute owner name => s!"{owner} has no attribute '{name}'"
  | .missingKey literal => literal
  | .pathThroughScalar field part =>
    s!"Field '{field}' conflicts with scalar field '{part}'"
  | .fieldSetTwice field => s!"Field '{field}' is set more than once"
  | .notInteger literal => s!"invalid literal for int() with base 10: {literal}"
  | .tooManyDigits limit count =>
    s!"Exceeds the limit ({limit} digits) for integer string conversion: "
      ++ s!"value has {count} digits; use sys.set_int_max_str_digits() to increase the limit"
  | .tooLongToShow limit =>
    s!"Exceeds the limit ({limit} digits) for integer string conversion; "
      ++ "use sys.set_int_max_str_digits() to increase the limit"
  | .notNumber type =>
    s!"int() argument must be a string, a bytes-like object or a real number, not '{type}'"
  | .undefinedInteger => "cannot convert float NaN to integer"
  | .infiniteInteger => "cannot convert float infinity to integer"
  | .numberTooLarge => "int too large to convert to float"
  | .notDivisible left right => s!"unsupported operand type(s) for /: '{left}' and '{right}'"
  | .quotientOverflow => "integer division result too large for a float"
  | .divisionByZero => "division by zero"
  | .quotientByZero => "float division by zero"
  | .frozenAttribute literal => s!"cannot assign to field {literal}"
  | .optionGivenTwice name => s!"create_client() got multiple values for argument '{name}'"
  | .raised _ message => message

end Failure

end EntityStore

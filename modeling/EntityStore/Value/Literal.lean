import EntityStore.Number.Decimal
import EntityStore.Number.IntegerText
import EntityStore.Text.Quoted
import EntityStore.Value.Basic

namespace EntityStore

namespace Value

def enclosed (left : String) (items : List String) (right : String) : String :=
  left ++ String.intercalate ", " items ++ right

/-- The literal of a tuple of items; one item alone is followed by a comma. -/
def tupleLiteral : List String → String
  | [item] => "(" ++ item ++ ",)"
  | items => enclosed "(" items ")"

/-- The literal of a document, from its keys and values. -/
def documentLiteral : DocumentKind → List (String × String) → String
  | .plain, fields => enclosed "\x7b" (fields.map fun f => f.1 ++ ": " ++ f.2) "\x7d"
  | .ordered, fields => "SON" ++ enclosed "([" (fields.map fun f => "(" ++ f.1 ++ ", " ++ f.2 ++ ")") "])"
  | .readOnly, fields =>
    "mappingproxy(" ++ enclosed "\x7b" (fields.map fun f => f.1 ++ ": " ++ f.2) "\x7d" ++ ")"

/-- The literal of a set of items. -/
def setLiteral (items : List String) : String :=
  if items.isEmpty then "set()" else enclosed "\x7b" items "\x7d"

def frozenSetLiteral (items : List String) : String :=
  if items.isEmpty then "frozenset()" else "frozenset(" ++ enclosed "\x7b" items "\x7d" ++ ")"

/-- At most this many characters of a quoted text are shown in some places. -/
def shownCharacters : Nat := 200

/-- The first characters of a quoted text. -/
def shortened (s : String) : String := String.ofList ((Quoted.text s).toList.take shownCharacters)

/-- The names of options that hold. -/
def optionNames (o : ExpressionOptions) : List String :=
  [(o.ignoresCase, "re.IGNORECASE"), (o.bindsToLines, "re.MULTILINE"), (o.dotMeansAll, "re.DOTALL"),
   (o.overlooksBlanks, "re.VERBOSE"), (o.asciiOnly, "re.ASCII")].filterMap fun option =>
    if option.1 then some option.2 else none

def patternLiteral (p : Pattern) : String :=
  let names := optionNames p.options
  "re.compile(" ++ shortened p.source
    ++ (if names.isEmpty then ")" else ", " ++ String.intercalate "|" names ++ ")")

/-- The name of an attribute with the spelling of its value. -/
def assignment (shown : String × String) : String := shown.1 ++ "=" ++ shown.2

mutual

/-- The text that shows the type of a value and quotes its texts, as it stands inside a container. There is
none of an integer of too many digits, nor of what would show one. -/
def spelled : Value → Except Failure String
  | .null => .ok "None"
  | .bool true => .ok "True"
  | .bool false => .ok "False"
  | .int n => IntegerText.shown n
  | .float x => .ok x.text
  | .text s => .ok (Quoted.text s)
  | .bytes bs => .ok (Quoted.bytes bs)
  | .list items => do
    let shown ← spelledItems items
    pure (enclosed "[" shown "]")
  | .tuple items => do
    let shown ← spelledItems items
    pure (tupleLiteral shown)
  | .set items => do
    let shown ← spelledItems items
    pure (setLiteral shown)
  | .frozenSet items => do
    let shown ← spelledItems items
    pure (frozenSetLiteral shown)
  | .document kind fields => do
    let shown ← spelledFields fields
    pure (documentLiteral kind shown)
  | .timestamp t => .ok t.literal
  | .date d => .ok d.literal
  | .objectId o => .ok ("ObjectId('" ++ o.display ++ "')")
  | .decimal s => .ok ("Decimal128('" ++ s ++ "')")
  | .pattern p => .ok (patternLiteral p)
  | .url s => .ok ("AnyUrl(" ++ Quoted.text s ++ ")")
  | .direction d => .ok ("<Order." ++ d.name ++ ": " ++ Quoted.text d.code ++ ">")
  | .entityId id => do
    let shown ← spelled id
    pure ("EntityId(" ++ shown ++ ")")
  | .record .object _ _ => .ok "<Plain object>"
  | .record .model attributes _ => do
    let shown ← spelledAttributes attributes
    pure ("Model" ++ enclosed "(" (shown.map assignment) ")")
  | .record .data attributes _ => do
    let shown ← spelledAttributes attributes
    pure ("Data" ++ enclosed "(" (shown.map assignment) ")")
  | .thing => .ok "<Thing object>"
  | .recordType name => .ok ("<class 'types." ++ name ++ "'>")
termination_by structural v => v

def spelledItems : List Value → Except Failure (List String)
  | [] => .ok []
  | v :: vs => do
    let shown ← spelled v
    let rest ← spelledItems vs
    pure (shown :: rest)
termination_by structural vs => vs

def spelledField : Value × Value → Except Failure (String × String)
  | (k, v) => do
    let key ← spelled k
    let shown ← spelled v
    pure (key, shown)
termination_by structural p => p

def spelledFields : List (Value × Value) → Except Failure (List (String × String))
  | [] => .ok []
  | p :: fs => do
    let shown ← spelledField p
    let rest ← spelledFields fs
    pure (shown :: rest)
termination_by structural fs => fs

def spelledAttribute : String × Value → Except Failure (String × String)
  | (name, v) => do
    let shown ← spelled v
    pure (name, shown)
termination_by structural p => p

/-- The names of attributes with the spellings of their values. -/
def spelledAttributes : List (String × Value) → Except Failure (List (String × String))
  | [] => .ok []
  | p :: as => do
    let shown ← spelledAttribute p
    let rest ← spelledAttributes as
    pure (shown :: rest)
termination_by structural as => as

end

/-- The literal of a value, which is empty if the value cannot be spelled. -/
def literal (v : Value) : String := v.spelled.toOption.getD ""

end Value

end EntityStore

import EntityStore.Log
import EntityStore.Number.IntegerText
import EntityStore.Value.Display

namespace EntityStore

/-- The address of the engine, and options by name. -/
structure Connection where
  address : Value
  options : Dictionary String Value

namespace Connection

/-- The address of an engine on the same machine. -/
def defaultAddress : String := "mongodb://localhost:27017"

/-- How long to look for a server, in milliseconds, as the environment would say it. -/
def defaultTimeout : String := "5000"

def addressVariable : String := "MONGO_URI"

def timeoutVariable : String := "MONGO_SERVER_SELECTION_TIMEOUT_MS"

def timeoutOption : String := "serverSelectionTimeoutMS"

def addressOption : String := "uri"

def setting (environment : Dictionary String String) (name default : String) : String :=
  (Dictionary.get? name environment).getD default

/-- Adds an option if it is not given. -/
def withDefault (name : String) (v : Value) (options : Dictionary String Value) :
    Dictionary String Value :=
  if Dictionary.contains name options then options else options ++ [(name, v)]

def timeout (c : Connection) : Value := (Dictionary.get? timeoutOption c.options).getD .null

/-- The address is not an option. -/
def checkOptions (options : Dictionary String Value) : Except Failure Unit :=
  if Dictionary.contains addressOption options then .error (.optionGivenTwice addressOption) else .ok ()

/-- Makes a connection. The timeout in the environment is read even if one is given. -/
def ofSettings (address : Value) (environment : Dictionary String String)
    (options : Dictionary String Value) : Reported Connection := do
  Reported.ofExcept (checkOptions options)
  let address :=
    if address.isTruthy then address else .text (setting environment addressVariable defaultAddress)
  let timeout ← Reported.ofExcept
    (IntegerText.read (setting environment timeoutVariable defaultTimeout))
  let c : Connection := ⟨address, withDefault timeoutOption (.int timeout) options⟩
  let shownAddress ← Reported.ofExcept address.display
  let shownTimeout ← Reported.ofExcept c.timeout.display
  Reported.note .info
    s!"Creating MongoDB client for {shownAddress} (server selection timeout: {shownTimeout} ms)"
  pure c

end Connection

end EntityStore

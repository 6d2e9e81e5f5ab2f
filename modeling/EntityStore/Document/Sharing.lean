import EntityStore.Document.Expand
import EntityStore.Document.Lookup

namespace EntityStore

namespace Sharing

/-- A document that is part of the result and of what was given, with the keys that lead to it in
each. -/
structure Shared where
  inResult : KeyPath
  inGiven : KeyPath

/-- The result so far, the document that was given as it is now, and what they share. -/
structure State where
  result : Document
  given : Document
  shared : List Shared

/-- What setting a value does to a document on the way. The documents that are missing further on are
created before the value is copied, even if the copy fails. -/
def setBelow (name : String) (keys : KeyPath) (v : Value) (node : Document) : Document :=
  if keys.isEmpty then
    match Expand.writable? v with
    | some (_, new) => Dictionary.insertMany node new
    | none => node
  else
    match Expand.setAt name keys v node with
    | .ok node => node
    | .error (.notCopyable _) => (Expand.within name keys.parents .ok node).toOption.getD node
    | .error _ => node

/-- Sets a value in the document that was given if its keys lead through a shared document. -/
def setInGiven (name : String) (keys : KeyPath) (v : Value) (given : Document) (s : Shared) : Document :=
  if s.inResult.isPrefixOf keys then
    Document.modifyAt s.inGiven (setBelow name (keys.drop s.inResult.length) v) given
  else given

/-- What is shared once fields were merged into the document that some keys lead to: the fields replace
those of the same keys, and the documents among them are not copied. -/
def sharedByMerge (key : Value) (keys : KeyPath) (fields : Document) (shared : List Shared) :
    List Shared :=
  let replaced := fields.map fun f => keys ++ [f.1]
  let merged := fields.filter fun f => f.2.isWritableDocument
  shared.filter (fun s => !replaced.any fun r => r.isPrefixOf s.inResult)
    ++ merged.map fun f => ⟨keys ++ [f.1], [key, f.1]⟩

/-- What is shared once a value was set in the result. -/
def sharedAfter (key : Value) (keys : KeyPath) (v : Value) (s : State) : List Shared :=
  match Document.valueAt? keys s.result, Expand.writable? v with
  | some _, some (_, fields) => sharedByMerge key keys fields s.shared
  | _, _ => s.shared

/-- Sets a field in the result, and in what was given where that is part of the result. -/
def setField (s : State) (key v : Value) (name : String) (keys : KeyPath) : State × Bool :=
  let given := s.shared.foldl (setInGiven name keys v) s.given
  match Expand.setAt name keys v s.result with
  | .error _ => ({ s with given := given }, false)
  | .ok result => (⟨result, given, sharedAfter key keys v s⟩, true)

/-- Sets the fields one after the other, up to the first that fails. -/
def setFields : State → Document → State
  | s, [] => s
  | s, (key, v) :: rest =>
    match Expand.keysOf key, key.display with
    | .ok keys, .ok name =>
      match setField s key v name keys with
      | (s, true) => setFields s rest
      | (s, false) => s
    | _, _ => s

end Sharing

/-- A value as it is after it was expanded. -/
def afterExpansion : Value → Value
  | .document kind fields => .document kind (Sharing.setFields ⟨[], fields, []⟩ fields).given
  | v => v

end EntityStore

import EntityStore.Value.Equality

namespace EntityStore

namespace Document

/-- The value at the end of some keys, if documents lead to it. -/
def valueAt? : List Value → Document → Option Value
  | [], _ => none
  | part :: rest, node =>
    match Dictionary.get? part node with
    | none => none
    | some v =>
      if rest.isEmpty then some v
      else match v with
        | .document _ fields => valueAt? rest fields
        | _ => none

/-- Changes the document at the end of some keys, if documents lead to it. -/
def modifyAt : List Value → (Document → Document) → Document → Document
  | [], change, node => change node
  | part :: rest, change, node =>
    match Dictionary.get? part node with
    | some (.document kind fields) =>
      Dictionary.insert part (.document kind (modifyAt rest change fields)) node
    | _ => node

end Document

end EntityStore

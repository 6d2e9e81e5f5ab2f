import EntityStore.Failure
import EntityStore.Value.Basic

namespace EntityStore

namespace Value

mutual

/-- Whether a copy of a value would have to copy a read-only view. -/
def holdsView : Value → Bool
  | .document .readOnly _ => true
  | .document .plain fields => fieldsHoldView fields
  | .document .ordered fields => orderedFieldsHoldView fields
  | .list items => itemsHoldView items
  | .tuple items => itemsHoldView items
  | .set items => itemsHoldView items
  | .frozenSet items => itemsHoldView items
  | .entityId id => holdsView id
  | .record _ attributes _ => attributesHoldView attributes
  | _ => false
termination_by structural v => v

def itemsHoldView : List Value → Bool
  | [] => false
  | v :: vs => holdsView v || itemsHoldView vs
termination_by structural vs => vs

/-- Both keys and values of a plain document are copied. -/
def fieldsHoldView : List (Value × Value) → Bool
  | [] => false
  | p :: fs => fieldHoldsView p || fieldsHoldView fs
termination_by structural fs => fs

def fieldHoldsView : Value × Value → Bool
  | (k, v) => holdsView k || holdsView v
termination_by structural p => p

/-- Only the values of an ordered document are copied; its keys are taken over. -/
def orderedFieldsHoldView : List (Value × Value) → Bool
  | [] => false
  | p :: fs => orderedFieldHoldsView p || orderedFieldsHoldView fs
termination_by structural fs => fs

def orderedFieldHoldsView : Value × Value → Bool
  | (_, v) => holdsView v
termination_by structural p => p

def attributesHoldView : List (String × Value) → Bool
  | [] => false
  | p :: as => attributeHoldsView p || attributesHoldView as
termination_by structural as => as

def attributeHoldsView : String × Value → Bool
  | (_, v) => holdsView v
termination_by structural p => p

end

def viewRefusal : Failure := .notCopyable "mappingproxy"

end Value

end EntityStore

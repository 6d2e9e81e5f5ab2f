import EntityStore.Document.Copy

namespace EntityStore

namespace Value

mutual

/-- The value with every model, data record, set and address in it converted. -/
def converted : Value → Value
  | .document .plain fields => .document .plain (convertedFields fields)
  | .document .ordered fields => .document .plain (convertedFields fields)
  | .list items => .list (convertedItems items)
  | .tuple items => .tuple (convertedItems items)
  | .set items => .list (convertedItems items)
  | .record .model attributes _ => .document .plain (convertedAttributes attributes)
  | .record .data attributes _ => .document .plain (convertedAttributes attributes)
  | .url s => .text s
  | v => v
termination_by structural v => v

def convertedItems : List Value → List Value
  | [] => []
  | v :: vs => converted v :: convertedItems vs
termination_by structural vs => vs

/-- Keys are kept as they are. -/
def convertedFields : List (Value × Value) → List (Value × Value)
  | [] => []
  | p :: fs => convertedField p :: convertedFields fs
termination_by structural fs => fs

def convertedField : Value × Value → Value × Value
  | (k, v) => (k, converted v)
termination_by structural p => p

def convertedAttributes : List (String × Value) → List (Value × Value)
  | [] => []
  | p :: as => convertedAttribute p :: convertedAttributes as
termination_by structural as => as

def convertedAttribute : String × Value → Value × Value
  | (name, v) => (.text name, converted v)
termination_by structural p => p

end

theorem convertedItems_eq_map (vs : List Value) : convertedItems vs = vs.map converted := by
  induction vs with
  | nil => rfl
  | cons v vs ih => rw [convertedItems, ih, List.map_cons]

theorem convertedFields_eq_map (fs : List (Value × Value)) :
    convertedFields fs = fs.map fun f => (f.1, f.2.converted) := by
  induction fs with
  | nil => rfl
  | cons f fs ih => rw [convertedFields, convertedField, ih, List.map_cons]

theorem convertedAttributes_eq_map (as : List (String × Value)) :
    convertedAttributes as = as.map fun a => (.text a.1, a.2.converted) := by
  induction as with
  | nil => rfl
  | cons a as ih => rw [convertedAttributes, convertedAttribute, ih, List.map_cons]

mutual

/-- Whether a part of a data record refuses to be copied: the record is gone through down to what is
neither document, list, tuple nor data record, and that is copied. -/
def recordPartHoldsView : Value → Bool
  | .document .plain fields => recordFieldsHoldView fields
  | .document .ordered fields => recordFieldsHoldView fields
  | .list items => recordItemsHoldView items
  | .tuple items => recordItemsHoldView items
  | .record .data attributes _ => recordAttributesHoldView attributes
  | v => holdsView v
termination_by structural v => v

def recordItemsHoldView : List Value → Bool
  | [] => false
  | v :: vs => recordPartHoldsView v || recordItemsHoldView vs
termination_by structural vs => vs

def recordFieldsHoldView : List (Value × Value) → Bool
  | [] => false
  | p :: fs => recordFieldHoldsView p || recordFieldsHoldView fs
termination_by structural fs => fs

def recordFieldHoldsView : Value × Value → Bool
  | (k, v) => recordPartHoldsView k || recordPartHoldsView v
termination_by structural p => p

def recordAttributesHoldView : List (String × Value) → Bool
  | [] => false
  | p :: as => recordAttributeHoldsView p || recordAttributesHoldView as
termination_by structural as => as

def recordAttributeHoldsView : String × Value → Bool
  | (_, v) => recordPartHoldsView v
termination_by structural p => p

end

mutual

/-- Whether a data record that would be copied refuses. Models are converted without a copy. -/
def refusesPreparation : Value → Bool
  | .document .plain fields => fieldsRefusePreparation fields
  | .document .ordered fields => fieldsRefusePreparation fields
  | .list items => itemsRefusePreparation items
  | .tuple items => itemsRefusePreparation items
  | .set items => itemsRefusePreparation items
  | .record .data attributes _ => recordAttributesHoldView attributes
  | _ => false
termination_by structural v => v

def itemsRefusePreparation : List Value → Bool
  | [] => false
  | v :: vs => refusesPreparation v || itemsRefusePreparation vs
termination_by structural vs => vs

def fieldsRefusePreparation : List (Value × Value) → Bool
  | [] => false
  | p :: fs => fieldRefusesPreparation p || fieldsRefusePreparation fs
termination_by structural fs => fs

def fieldRefusesPreparation : Value × Value → Bool
  | (_, v) => refusesPreparation v
termination_by structural p => p

end

def prepared (v : Value) : Except Failure Value :=
  if v.refusesPreparation then .error viewRefusal else .ok v.converted

end Value

end EntityStore

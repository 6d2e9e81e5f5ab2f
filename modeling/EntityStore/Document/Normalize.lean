import EntityStore.Value.Basic

namespace EntityStore

namespace Value

mutual

/-- The value with every document, tuple, native identifier and naive timestamp in it made plain. -/
def normalized : Value → Value
  | .document _ fields => .document .plain (normalizedFields fields)
  | .list items => .list (normalizedItems items)
  | .tuple items => .list (normalizedItems items)
  | .objectId o => .text o.display
  | .timestamp t => .timestamp t.inUniversalTime
  | v => v
termination_by structural v => v

def normalizedItems : List Value → List Value
  | [] => []
  | v :: vs => normalized v :: normalizedItems vs
termination_by structural vs => vs

/-- Keys are kept as they are. -/
def normalizedFields : List (Value × Value) → List (Value × Value)
  | [] => []
  | p :: fs => normalizedField p :: normalizedFields fs
termination_by structural fs => fs

def normalizedField : Value × Value → Value × Value
  | (k, v) => (k, normalized v)
termination_by structural p => p

end

theorem normalizedItems_eq_map (vs : List Value) : normalizedItems vs = vs.map normalized := by
  induction vs with
  | nil => rfl
  | cons v vs ih => rw [normalizedItems, ih, List.map_cons]

theorem normalizedFields_eq_map (fs : List (Value × Value)) :
    normalizedFields fs = fs.map fun f => (f.1, f.2.normalized) := by
  induction fs with
  | nil => rfl
  | cons f fs ih => rw [normalizedFields, normalizedField, ih, List.map_cons]

end Value

end EntityStore

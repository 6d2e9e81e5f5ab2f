import EntityStore.Repository.Writing

namespace EntityStore

inductive Operation where
  | find (id : Value) (fields : Option Selection)
  | findBy (filter : FilterArgument) (sort : Option SortOrder) (fields : Option Selection)
  | findByDistinct (fields : Option Selection) (filter : FilterArgument) (sort : Option SortOrder)
  | findAll (request : Option PageRequest)
  | count (filter : FilterArgument)
  | contains (id : Value)
  | add (entity : Value)
  | addAll (entities : Value)
  | remove (id : Value)
  | removeAll (filter : FilterArgument)

namespace Operation

variable {α : Type}

/-- What an operation comes to where it succeeds. -/
abbrev Result (α : Type) : Operation → Type
  | .find _ _ => Option (Found α)
  | .findBy _ _ _ => List (Found α)
  | .findByDistinct _ _ _ => List (Found α)
  | .findAll _ => Page (Found α)
  | .count _ => Int
  | .contains _ => Bool
  | .add _ => Option (Found α)
  | .addAll _ => List (Found α)
  | .remove _ => Unit
  | .removeAll _ => Unit

def program (r : Repository α) : (op : Operation) → Program (op.Result α)
  | .find id fields => r.find id fields
  | .findBy filter sort fields => r.findBy filter sort fields
  | .findByDistinct fields filter sort => r.findByDistinct fields filter sort
  | .findAll request => r.findAll request
  | .count filter => r.count filter
  | .contains id => r.contains id
  | .add entity => r.add entity
  | .addAll entities => r.addAll entities
  | .remove id => r.remove id
  | .removeAll filter => r.removeAll filter

end Operation

/-- Shoppers, whose number and name are stored under names of their own. -/
def shoppers : Mapping :=
  ⟨"shoppers", [("number", "shopper_number"), ("name", "shopper_name"), ("orders", "orders.total")],
    "number", false⟩

def shop : Repository Unit := ⟨"shop", shoppers, none, .standard⟩

end EntityStore

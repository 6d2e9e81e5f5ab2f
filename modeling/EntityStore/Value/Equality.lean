import EntityStore.Number.Quantity
import EntityStore.Value.Basic

namespace EntityStore

namespace Value

/-- The number that a value is; truth values count as zero and one. -/
def quantity? : Value → Option Quantity
  | .bool b => some (.ofInt b.toNat)
  | .int n => some (.ofInt n)
  | .float x => some (.ofBinary64 x)
  | _ => none

/-- Equality of values that hold no others. -/
def sameAtom : Value → Value → Bool
  | .null, .null => true
  | .text s, .text t => s == t
  | .bytes s, .bytes t => s == t
  | .timestamp s, .timestamp t => s.same t
  | .date s, .date t => s == t
  | .objectId s, .objectId t => s == t
  | .decimal s, .decimal t => s == t
  | .pattern s, .pattern t => s == t
  | .url s, .url t => s == t
  | .direction s, .direction t => s == t
  | v, w => match v.quantity?, w.quantity? with
    | some a, some b => a.same b
    | _, _ => false

/-- The elements of a set of either sort. -/
def members? : Value → Option (List Value)
  | .set items | .frozenSet items => some items
  | _ => none

/-- Whether the order of the fields of a document matters where documents may be taken as plain. -/
def countsOrder (asPlain : Bool) (kind : DocumentKind) : Bool := kind == .ordered && !asPlain

mutual

/-- Equality of values, where the documents of the first or of the second may be taken as plain. -/
def sameIn (firstPlain secondPlain : Bool) : Value → Value → Bool
  | .list xs, w => match w with
    | .list ys => sameItems firstPlain secondPlain xs ys
    | _ => false
  | .tuple xs, w => match w with
    | .tuple ys => sameItems false false xs ys
    | _ => false
  | .set xs, w => match w.members? with
    | some ys => xs.length == ys.length && sameMembers xs ys
    | none => false
  | .frozenSet xs, w => match w.members? with
    | some ys => xs.length == ys.length && sameMembers xs ys
    | none => false
  | .document kind fs, w => match w with
    | .document kind' gs =>
      let first := countsOrder firstPlain kind
      let second := countsOrder secondPlain kind'
      if first && second then sameEntries fs gs
      else fs.length == gs.length && sameFields (firstPlain || first) (secondPlain || second) fs gs
    | _ => false
  | .entityId v, w => match w with
    | .entityId w => sameIn false false v w
    | _ => false
  | v, w => sameAtom v w
termination_by structural v => v

/-- Equality of sequences, element by element. -/
def sameItems (firstPlain secondPlain : Bool) : List Value → List Value → Bool
  | [], ws => ws.isEmpty
  | v :: vs, ws => match ws with
    | w :: ws => sameIn firstPlain secondPlain v w && sameItems firstPlain secondPlain vs ws
    | [] => false
termination_by structural vs => vs

/-- Whether each element is among the others. -/
def sameMembers : List Value → List Value → Bool
  | [], _ => true
  | v :: vs, ws => ws.any (fun w => sameIn false false v w) && sameMembers vs ws
termination_by structural vs => vs

/-- Whether an entry has the key and the value of another. -/
def sameEntry (firstPlain secondPlain : Bool) : Value × Value → Value × Value → Bool
  | (k, v), (k', v') => sameIn false false k k' && sameIn firstPlain secondPlain v v'
termination_by structural p => p

/-- Equality of fields in the same order. -/
def sameEntries : List (Value × Value) → List (Value × Value) → Bool
  | [], gs => gs.isEmpty
  | p :: fs, gs => match gs with
    | q :: gs => sameEntry false false p q && sameEntries fs gs
    | [] => false
termination_by structural fs => fs

/-- Whether each field is among the others. -/
def sameFields (firstPlain secondPlain : Bool) : List (Value × Value) → List (Value × Value) → Bool
  | [], _ => true
  | p :: fs, gs =>
    gs.any (fun q => sameEntry firstPlain secondPlain p q) && sameFields firstPlain secondPlain fs gs
termination_by structural fs => fs

end

def same (v w : Value) : Bool := sameIn false false v w

instance : BEq Value := ⟨same⟩

/-- A text equals nothing but the same text. -/
theorem beq_text (v : Value) (s : String) : (v == .text s) = true ↔ v = .text s := by
  change sameIn false false v (.text s) = true ↔ _
  cases v with
  | document kind fields => cases kind <;> simp [sameIn]
  | _ => simp [sameIn, sameAtom, quantity?, members?]

/-- Whether a value is of a type that is never a key: containers that can be changed, documents,
decimals, and records that are compared by their attributes. -/
def isNeverKey : Value → Bool
  | .list _ | .set _ | .document _ _ | .decimal _ | .record .model _ _ | .record .data _ _ => true
  | _ => false

mutual

/-- The name of the type that keeps a value from being a key, if one does. -/
def unhashable? : Value → Option String
  | .tuple items => unhashableItem? items
  | .entityId v => unhashable? v
  | v => if v.isNeverKey then some v.typeName else none
termination_by structural v => v

/-- The same for the first of some values that cannot be a key. -/
def unhashableItem? : List Value → Option String
  | [] => none
  | v :: vs => match unhashable? v with
    | some type => some type
    | none => unhashableItem? vs
termination_by structural vs => vs

end

end Value

end EntityStore

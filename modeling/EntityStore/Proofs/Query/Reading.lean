import EntityStore.Query.OfFilter

namespace EntityStore

namespace Condition

/-- Whether a field has to hold a list, literally: the document of such a condition reads like
queries that are joined. -/
def isListed : Condition → Bool
  | .literally (.list _) => true
  | _ => false

theorem document_ne_list {c : Condition} (h : c.isListed = false) (items : List Value) :
    c.document ≠ .list items := by
  cases c with
  | literally v => cases v <;> simp_all [isListed, document]
  | equality holds v => cases holds <;> simp [document]
  | membership holds vs => cases holds <;> simp [document]
  | pattern holds source => cases holds <;> simp [document]
  | _ => simp [document]

end Condition

namespace Query

mutual

/-- Whether no condition of a query asks for a list literally. -/
def isReadable : Query → Bool
  | .everything => true
  | .field _ c => !c.isListed
  | .all queries => areReadable queries
  | .any queries => areReadable queries
termination_by structural q => q

def areReadable : List Query → Bool
  | [] => true
  | q :: qs => isReadable q && areReadable qs
termination_by structural qs => qs

end

theorem allHold_eq_all (fulfils : String → Condition → Bool) (qs : List Query) :
    allHold fulfils qs = qs.all fun q => q.holds fulfils := by
  induction qs with
  | nil => rfl
  | cons q qs ih => rw [allHold, ih, List.all_cons]

theorem anyHolds_eq_any (fulfils : String → Condition → Bool) (qs : List Query) :
    anyHolds fulfils qs = qs.any fun q => q.holds fulfils := by
  induction qs with
  | nil => rfl
  | cons q qs ih => rw [anyHolds, ih, List.any_cons]

theorem areReadable_eq_all (qs : List Query) : areReadable qs = qs.all fun q => q.isReadable := by
  induction qs with
  | nil => rfl
  | cons q qs ih => rw [areReadable, ih, List.all_cons]

theorem documents_eq_map (qs : List Query) : documents qs = qs.map fun q => q.document := by
  induction qs with
  | nil => rfl
  | cons q qs ih => rw [documents, ih, List.map_cons]

end Query

namespace QueryDocument

mutual

/-- Whether a query document is true, where it is known which conditions on single fields are. All the
entries of a document have to be true, and the two connectives join the documents of a list. -/
def holds (fulfils : String → Value → Bool) : Value → Bool
  | .document .plain entries => entriesHold fulfils entries
  | _ => false
termination_by structural v => v

def entriesHold (fulfils : String → Value → Bool) : List (Value × Value) → Bool
  | [] => true
  | e :: es => entryHolds fulfils e && entriesHold fulfils es
termination_by structural es => es

def entryHolds (fulfils : String → Value → Bool) : Value × Value → Bool
  | (.text name, .list queries) =>
    if name = "$and" then allHold fulfils queries
    else if name = "$or" then anyHolds fulfils queries
    else fulfils name (.list queries)
  | (.text name, operators) => fulfils name operators
  | _ => false
termination_by structural e => e

def allHold (fulfils : String → Value → Bool) : List Value → Bool
  | [] => true
  | q :: qs => holds fulfils q && allHold fulfils qs
termination_by structural qs => qs

def anyHolds (fulfils : String → Value → Bool) : List Value → Bool
  | [] => false
  | q :: qs => holds fulfils q || anyHolds fulfils qs
termination_by structural qs => qs

end

/-- Whether alternatives are the two sides outside of a range: less than one bound, and greater than
another, of one field. -/
def areSidesOfRange : List Value → Bool
  | [.document .plain [(.text below, .document .plain [(.text "$lt", _)])],
      .document .plain [(.text above, .document .plain [(.text "$gt", _)])]] => below == above
  | _ => false

mutual

/-- The conditions of a query document: all that its connectives join. The two sides outside of a
range are one condition. -/
def conditions : Value → List Value
  | .document .plain entries => conditionsOfEntries entries
  | _ => []
termination_by structural v => v

def conditionsOfEntries : List (Value × Value) → List Value
  | [] => []
  | e :: es => conditionsOfEntry e ++ conditionsOfEntries es
termination_by structural es => es

def conditionsOfEntry : Value × Value → List Value
  | (.text name, .list queries) =>
    if name = "$and" ∨ name = "$or" ∧ areSidesOfRange queries = false then conditionsOfAll queries
    else [.single name (.list queries)]
  | (name, operators) => [.plain [(name, operators)]]
termination_by structural e => e

def conditionsOfAll : List Value → List Value
  | [] => []
  | q :: qs => conditions q ++ conditionsOfAll qs
termination_by structural qs => qs

end

/-- A field that has to hold anything but a list is left to the interpretation. -/
theorem holds_field (fulfils : String → Value → Bool) (name : String) (c : Condition)
    (hc : c.isListed = false) : holds fulfils (.single name c.document) = fulfils name c.document := by
  have hd : ∀ items, c.document ≠ .list items := Condition.document_ne_list hc
  cases hv : c.document with
  | list items => exact absurd hv (hd items)
  | _ => simp [holds, entriesHold, entryHolds]

@[simp]
theorem holds_all (fulfils : String → Value → Bool) (queries : List Value) :
    holds fulfils (.single "$and" (.list queries)) = allHold fulfils queries := by
  simp [holds, entriesHold, entryHolds]

@[simp]
theorem holds_any (fulfils : String → Value → Bool) (queries : List Value) :
    holds fulfils (.single "$or" (.list queries)) = anyHolds fulfils queries := by
  simp [holds, entriesHold, entryHolds]

mutual

/-- The document of a query is true exactly when the query is. -/
theorem holds_document (fulfils : String → Value → Bool) :
    ∀ q : Query, q.isReadable = true →
      holds fulfils q.document = q.holds fun name c => fulfils name c.document
  | .everything, _ => rfl
  | .field name c, h => holds_field fulfils name c (by simpa [Query.isReadable] using h)
  | .all queries, h => by
    rw [Query.document, holds_all, allHold_documents fulfils queries h, Query.holds]
  | .any queries, h => by
    rw [Query.document, holds_any, anyHolds_documents fulfils queries h, Query.holds]

theorem allHold_documents (fulfils : String → Value → Bool) :
    ∀ qs : List Query, Query.areReadable qs = true →
      allHold fulfils (Query.documents qs) = Query.allHold (fun name c => fulfils name c.document) qs
  | [], _ => rfl
  | q :: qs, h => by
    obtain ⟨hq, hqs⟩ : q.isReadable = true ∧ Query.areReadable qs = true := by
      simpa [Query.areReadable] using h
    rw [Query.documents, allHold, holds_document fulfils q hq, allHold_documents fulfils qs hqs,
      Query.allHold]

theorem anyHolds_documents (fulfils : String → Value → Bool) :
    ∀ qs : List Query, Query.areReadable qs = true →
      anyHolds fulfils (Query.documents qs) = Query.anyHolds (fun name c => fulfils name c.document) qs
  | [], _ => rfl
  | q :: qs, h => by
    obtain ⟨hq, hqs⟩ : q.isReadable = true ∧ Query.areReadable qs = true := by
      simpa [Query.areReadable] using h
    rw [Query.documents, anyHolds, holds_document fulfils q hq, anyHolds_documents fulfils qs hqs,
      Query.anyHolds]

end

theorem conditionsOfAll_eq_flatMap (queries : List Value) :
    conditionsOfAll queries = queries.flatMap conditions := by
  induction queries with
  | nil => rfl
  | cons q qs ih => rw [conditionsOfAll, ih, List.flatMap_cons]

theorem conditions_field (name : String) (c : Condition) (hc : c.isListed = false) :
    conditions (.single name c.document) = [.single name c.document] := by
  have hd : ∀ items, c.document ≠ .list items := Condition.document_ne_list hc
  cases hv : c.document with
  | list items => exact absurd hv (hd items)
  | _ => simp [conditions, conditionsOfEntries, conditionsOfEntry]

@[simp]
theorem conditions_all (queries : List Value) :
    conditions (.single "$and" (.list queries)) = queries.flatMap conditions := by
  simp [conditions, conditionsOfEntries, conditionsOfEntry, conditionsOfAll_eq_flatMap]

theorem conditions_any (queries : List Value) (h : areSidesOfRange queries = false) :
    conditions (.single "$or" (.list queries)) = queries.flatMap conditions := by
  simp [conditions, conditionsOfEntries, conditionsOfEntry, conditionsOfAll_eq_flatMap, h]

theorem conditions_sidesOfRange (queries : List Value) (h : areSidesOfRange queries = true) :
    conditions (.single "$or" (.list queries)) = [.single "$or" (.list queries)] := by
  simp [conditions, conditionsOfEntries, conditionsOfEntry, h]

end QueryDocument

end EntityStore

import EntityStore.Engine.Scripted
import EntityStore.Proofs.Repository.Operation
import EntityStore.Proofs.Repository.Serving
import EntityStore.Proofs.Value.Undefined

namespace EntityStore

open Program Value Sorting

/-- The direction in which keys sort the values of a field: that of the first key, if it is for the field. -/
def SortKeys.directionOf (field : String) : SortKeys → Option Direction
  | (name, sign) :: _ =>
    if name = field then some (if sign = Direction.descending.sign then .descending else .ascending) else none
  | [] => none

namespace Repository

variable {σ α : Type} {engine : Engine σ} {r : Repository α} {fields : Option Selection} {filter : FilterArgument}
  {sort : Option SortOrder} {field : String} {query : Value} {keys : SortKeys} {s after : σ} {vs ws : List Value}

theorem directionFor_value (field : String) (keys : SortKeys) :
    directionFor field keys.value = .ok (keys.directionOf field) := by
  cases keys with
  | nil => rfl
  | cons key keys =>
    have hdirection : directionFor field (SortKeys.value (key :: keys)) =
        if (Value.text key.1 == .text field) = true then
          .ok (some (if Value.int key.2 == .int Direction.descending.sign then .descending else .ascending))
        else .ok none := rfl
    rw [hdirection, SortKeys.directionOf, text_beq_text, int_beq_int]
    simp only [beq_iff_eq]
    split <;> rfl

/-- What a repository asks for distinct values with: the storage name of their field, a query, and the keys that they
are sorted by. -/
structure AsksDistinct (r : Repository α) (fields : Option Selection) (filter : FilterArgument)
    (sort : Option SortOrder) (field : String) (query : Value) (keys : SortKeys) : Prop where
  field : r.distinctField fields = .ok field
  query : (r.strategies.filterQuery filter r.mapping).outcome = .ok query
  keys : (r.strategies.sortKeys sort r.mapping).outcome = .ok keys.value

/-- The values in the order in which they are found. -/
theorem AsksDistinct.ends_findByDistinct (h : r.AsksDistinct fields filter sort field query keys)
    (hanswer : engine.answer (.distinct field query) s = (.ok (.list vs), after)) {n : Nat}
    (horder : inOrder field keys.value (.list vs) = .ok (n, ws)) :
    Ends engine (r.findByDistinct fields filter sort) s (ws.mapM r.restoredValue) after := by
  have hdistinct : Ends engine (r.distinctValues fields filter sort) s (.ok ws) after := by
    apply Ends.bind_ofExcept h.field
    apply Ends.bind_ofReported h.query
    apply Ends.bind_ofReported h.keys
    apply Ends.bind (Ends.during _ (Ends.bind (Ends.opened _ _ s) (Ends.request hanswer)))
    exact Ends.bind_ofExcept horder (Ends.bind (Ends.record _ _ after) (Ends.done ws after))
  exact Ends.bind hdistinct (Ends.ofExcept _ after)

theorem inOrder_of_sorted {d : Direction} (hdirection : keys.directionOf field = some d)
    (hsorted : sorted d vs = .ok ws) : inOrder field keys.value (.list vs) = .ok (ws.length, ws) := by
  have helements : (Value.list vs).elements = .ok vs := rfl
  rw [inOrder, directionFor_value, hdirection]
  simp only [Outcome.ok_bind, helements, hsorted, Outcome.pure_eq_ok]

/-- Distinct values are sorted stably by type and value, in the direction of the first key if it is for their field;
else they stay in the order of the engine. The sort does not fail. -/
theorem findByDistinct_sorted (h : r.AsksDistinct fields filter sort field query keys)
    (hanswer : engine.answer (.distinct field query) s = (.ok (.list vs), after))
    (hdata : ∀ v ∈ vs, v.isData = true) (hdefined : ∀ v ∈ vs, v.isUndefined = false) :
    ∃ ws, Ends engine (r.findByDistinct fields filter sort) s (ws.mapM r.restoredValue) after ∧
      match keys.directionOf field with
      | some d => Arranges d.admits standing vs ws
      | none => ws = vs := by
  cases hdirection : keys.directionOf field with
  | none =>
    have horder : inOrder field keys.value (.list vs) = .ok (vs.length, vs) := by
      rw [inOrder, directionFor_value, hdirection]
      rfl
    exact ⟨vs, h.ends_findByDistinct hanswer horder, rfl⟩
  | some d =>
    obtain ⟨ws, hsorted, harranges⟩ := sorted_arranges d hdata (areComparable_of_defined hdefined)
    exact ⟨ws, h.ends_findByDistinct hanswer (inOrder_of_sorted hdirection hsorted), harranges⟩

/-- Values of six types, two of them texts. -/
def assortment : List Value :=
  [.text "x", .int 5, .null, .text "a", .float (.finite false 5 (-1)), .bool true]

/-- Names of shoppers are sorted downwards, whatever was stored as a name. -/
theorem findByDistinct_sorted_assortment :
    let script := Script.start [.value (.list assortment)] 0
    let byName : SortOrder := ⟨[(.text "name", .descending)]⟩
    ∃ ws, Ends scriptedEngine (shop.findByDistinct (some ⟨[.text "name"]⟩) .absent (some byName)) script
      (ws.mapM shop.restoredValue) (.start [] 0) ∧ Arranges Direction.descending.admits standing assortment ws := by
  intro script byName
  have hasks : shop.AsksDistinct (some ⟨[.text "name"]⟩) .absent (some byName) "shopper_name" (.plain [])
      [("shopper_name", -1)] := by
    constructor <;> rfl
  have hdata : ∀ v ∈ assortment, v.isData = true := by decide
  have hdefined : ∀ v ∈ assortment, v.isUndefined = false := by decide
  have hanswer : scriptedEngine.answer (.distinct "shopper_name" (.plain [])) script =
      (.ok (.list assortment), .start [] 0) := rfl
  exact findByDistinct_sorted hasks hanswer hdata hdefined

/-- Whether a repository finds some values in the order of others, whatever engine answers with these. -/
def FindsDistinct (r : Repository α) (fields : Option Selection) (filter : FilterArgument) (sort : Option SortOrder)
    (field : String) (query : Value) (answered found : List Value) : Prop :=
  ∀ {σ : Type} (engine : Engine σ) (s after : σ),
    engine.answer (.distinct field query) s = (.ok (.list answered), after) →
      Ends engine (r.findByDistinct fields filter sort) s (found.mapM r.restoredValue) after

theorem AsksDistinct.findsDistinct {d : Direction} (h : r.AsksDistinct fields filter sort field query keys)
    (hdirection : keys.directionOf field = some d) (hsorted : sorted d vs = .ok ws) :
    r.FindsDistinct fields filter sort field query vs ws := by
  intro σ engine s after hanswer
  exact h.ends_findByDistinct hanswer (inOrder_of_sorted hdirection hsorted)

/-- Values that are told apart are found in one order, and in the reverse of it if they are sorted downwards,
whatever order the engine answers in. Not so where an undefined number is among other numbers: then two of
their orders are left as they are. -/
theorem findByDistinct_anyOrder {sort : Direction → Option SortOrder} {keys : Direction → SortKeys}
    (h : ∀ d, r.AsksDistinct fields filter (sort d) field query (keys d))
    (hdirection : ∀ d, (keys d).directionOf field = some d) (hdata : ∀ v ∈ vs, v.isData = true)
    (hapart : AreToldApart vs) :
    (AreComparable vs → ∃ zs, zs.Perm vs ∧ ∀ ws, ws.Perm vs →
      r.FindsDistinct fields filter (sort .ascending) field query ws zs ∧
        r.FindsDistinct fields filter (sort .descending) field query ws zs.reverse) ∧
    (¬AreComparable vs → ∃ ws ws', ws.Perm vs ∧ ws'.Perm vs ∧ ws ≠ ws' ∧
      r.FindsDistinct fields filter (sort .ascending) field query ws ws ∧
        r.FindsDistinct fields filter (sort .ascending) field query ws' ws') := by
  constructor
  · intro hcomparable
    obtain ⟨zs, hperm, hzs⟩ := sorted_anyOrder hdata hcomparable hapart
    refine ⟨zs, hperm, fun ws hws => ?_⟩
    obtain ⟨hascending, hdescending⟩ := hzs ws hws
    constructor
    · exact (h .ascending).findsDistinct (hdirection .ascending) hascending
    · exact (h .descending).findsDistinct (hdirection .descending) hdescending
  · intro hincomparable
    obtain ⟨ws, ws', hws, hws', hne, hsorted, hsorted'⟩ := exists_sorted_differently hdata hincomparable
    refine ⟨ws, ws', hws, hws', hne, ?_, ?_⟩
    · exact (h .ascending).findsDistinct (hdirection .ascending) hsorted
    · exact (h .ascending).findsDistinct (hdirection .ascending) hsorted'

/-- Two numbers, of which one is undefined, are found in the order of the engine. -/
theorem findByDistinct_anyOrder_undefined :
    let byName (d : Direction) : Option SortOrder := some ⟨[(.text "name", d)]⟩
    let found (sort : Option SortOrder) :=
      shop.FindsDistinct (some ⟨[.text "name"]⟩) .absent sort "shopper_name" (.plain [])
    ∃ ws ws', ws.Perm [.float .nan, .int 1] ∧ ws'.Perm [.float .nan, .int 1] ∧ ws ≠ ws' ∧
      found (byName .ascending) ws ws ∧ found (byName .ascending) ws' ws' := by
  intro byName found
  have hasks (d : Direction) : shop.AsksDistinct (some ⟨[.text "name"]⟩) .absent (byName d) "shopper_name" (.plain [])
      [("shopper_name", d.sign)] := by
    cases d <;> constructor <;> rfl
  have hdirection (d : Direction) : SortKeys.directionOf "shopper_name" [("shopper_name", d.sign)] = some d := by
    cases d <;> rfl
  have hdata : ∀ v ∈ [Value.float .nan, .int 1], v.isData = true := by decide
  have hapart : AreToldApart [.float .nan, .int 1] := by
    have hbefore := (standing_lt_of_isUndefined (v := .float .nan) (w := .int 1) rfl rfl rfl).1
    exact List.pairwise_pair.mpr fun hstanding => absurd hstanding hbefore.ne
  have hincomparable : ¬AreComparable [.float .nan, .int 1] := by
    intro hcomparable
    exact Bool.noConfusion (hcomparable (.float .nan) (by simp) (.int 1) (by simp) rfl)
  exact (findByDistinct_anyOrder hasks hdirection hdata hapart).2 hincomparable

end Repository

end EntityStore

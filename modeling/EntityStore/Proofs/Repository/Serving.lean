import EntityStore.Proofs.Repository.Finding
import EntityStore.Proofs.Repository.Refusing
import EntityStore.Proofs.Value.Order

namespace EntityStore

open Program

section

variable (m : Mapping)

/-- The query for a filter can be shown, whatever the filter asks for. -/
theorem queryOf_display {filter : FilterArgument} {query : Value}
    (h : (Strategies.standard.filterQuery filter m).outcome = .ok query) : ∃ shown, query.display = .ok shown := by
  cases filter with
  | absent =>
    obtain rfl := Except.ok.inj h
    exact ⟨_, rfl⟩
  | other v => exact absurd h (by simp [Strategies.standard, queryOf])
  | filter f => exact Filter.exists_display_of_queryOf h

/-- The keys of a sort order are a list of names and signs. -/
theorem sortKeys_value {sort : Option SortOrder} {keys : Value}
    (h : (Strategies.standard.sortKeys sort m).outcome = .ok keys) : ∃ ks : SortKeys, keys = ks.value := by
  have houtcome : (Strategies.standard.sortKeys sort m).outcome =
      (sortKeysOf sort m).outcome >>= fun ks => .ok ks.value :=
    Reported.outcome_bind _ _
  rw [houtcome] at h
  obtain ⟨ks, _, hks⟩ := Outcome.bind_eq_ok.mp h
  exact ⟨ks, (Except.ok.inj hks).symm⟩

theorem Mapping.MapsAll.isName {m : Mapping} {names : List Value} (h : m.MapsAll names) :
    ∀ name ∈ names, name.isName = true := by
  intro name hname
  cases name with
  | text s => rfl
  | _ => exact absurd (h _ hname) Bool.false_ne_true

end

namespace Repository

variable {σ α : Type} {engine : Engine σ} {ready : σ → Prop} {r : Repository α} {p : PageRequest}
  {results : List Value}

/-- Whether an engine answers a search from one list of results, as long as it is ready: it counts them, it finds
all of them, and it finds those between two places. -/
structure AnswersFrom (engine : Engine σ) (ready : σ → Prop) (query keys projection : Value) (results : List Value) :
    Prop where
  count : ∀ s, ready s → Succeeds engine (request (.count query)) s fun total after =>
    total = .int results.length ∧ ready after
  whole : ∀ s, ready s → Succeeds engine (do
      openCursor query projection keys
      request .fetch) s fun found after =>
    found = results ∧ ready after
  part : ∀ s, ready s → ∀ skip limit : Int, 0 ≤ skip → 1 ≤ limit → Succeeds engine (do
      openCursor query projection keys
      request (.skip skip)
      request (.limit limit)
      request .fetch) s fun found after =>
    found = (results.drop skip.toNat).take limit.toNat ∧ ready after

/-- The engine that keeps documents in a list answers from those that are found, whatever its cursor holds. -/
theorem answersFrom_collection {habits : EngineHabits}
    (harranged : ∀ keys ds, (habits.arranged keys ds).length = ds.length) (documents : List Document)
    (query projection keys : Value) :
    AnswersFrom (Collection.engine habits) (fun c => c.documents = documents) query keys projection
      ((Collection.found habits query projection keys documents).map .plain) := by
  have hlength : (Collection.found habits query projection keys documents).length =
      documents.countP fun d => d.isSelected query := by
    rw [List.countP_eq_length_filter, Collection.found]
    split
    · rw [harranged, List.length_map]
    · rw [List.length_map]
  constructor
  · rintro c rfl
    refine ⟨_, c, Ends.request rfl, ?_, rfl⟩
    rw [List.length_map, hlength]
  · rintro c rfl
    exact ⟨_, _, Ends.bind (openCursor_ends habits query projection keys c) (Ends.request rfl), rfl, rfl⟩
  · rintro c rfl skip limit hskip hlimit
    have hnonzero : limit ≠ 0 := by omega
    have habsolute : limit.natAbs = limit.toNat := by omega
    refine ⟨_, _, Ends.bind (openCursor_ends habits query projection keys c)
      (Ends.bind (Ends.request rfl) (Ends.bind (Ends.request rfl) (Ends.request rfl))), ?_, rfl⟩
    rw [if_neg hnonzero, habsolute, List.map_take, List.map_drop]

/-- Whether an engine answers what comes of a request for pages from one list of results: the documents of a
search or, if a field is named for that, its distinct values. These can be shown, as stored values can, whose
integers have 64 bits at most. -/
structure Serves (engine : Engine σ) (ready : σ → Prop) (r : Repository α) (p : PageRequest) (results : List Value) :
    Prop where
  documents : Selection.namesOf p.distinct = [] → ∀ query keys projection,
    (r.strategies.filterQuery p.filter r.mapping).outcome = .ok query →
    (r.strategies.sortKeys p.sort r.mapping).outcome = .ok keys →
    (r.strategies.projection p.fields r.mapping).outcome = .ok projection →
    AnswersFrom engine ready query keys projection results
  values : ∀ field query, r.distinctField p.distinct = .ok field →
    (r.strategies.filterQuery p.filter r.mapping).outcome = .ok query →
    ∀ s, ready s → Succeeds engine (request (.distinct field query)) s fun values after =>
      values = .list results ∧ ready after
  shown : Selection.namesOf p.distinct ≠ [] → ∀ v ∈ results, ∃ shown, v.display = .ok shown

/-- What is found by a request if its pages are left out of account. -/
def unpaged (r : Repository α) (p : PageRequest) : Program (List (Found α)) :=
  if (Selection.namesOf p.distinct).isEmpty then r.findBy p.filter p.sort p.fields
  else r.findByDistinct p.distinct p.filter p.sort

/-- What a result that is found by a request stands for. -/
def made (r : Repository α) (p : PageRequest) (v : Value) : Except Failure (Found α) :=
  if (Selection.namesOf p.distinct).isEmpty then r.restored v else r.restoredValue v

theorem unpaged_of_nil (h : Selection.namesOf p.distinct = []) : r.unpaged p = r.findBy p.filter p.sort p.fields := by
  rw [unpaged, h]
  rfl

theorem unpaged_of_ne_nil (h : Selection.namesOf p.distinct ≠ []) :
    r.unpaged p = r.findByDistinct p.distinct p.filter p.sort := by
  rw [unpaged, List.isEmpty_eq_false_iff.mpr h]
  rfl

theorem made_of_nil (h : Selection.namesOf p.distinct = []) : r.made p = r.restored := by
  funext v
  rw [made, h]
  rfl

theorem made_of_ne_nil (h : Selection.namesOf p.distinct ≠ []) : r.made p = r.restoredValue := by
  funext v
  rw [made, List.isEmpty_eq_false_iff.mpr h]
  rfl

theorem findAll_of_nil (h : Selection.namesOf p.distinct = []) : r.findAll (some p) = r.findPage p := by
  rw [findAll]
  split
  · rfl
  · next fields hfields =>
    rw [hfields] at h
    have hempty : fields.isEmpty = true := by
      rw [Selection.isEmpty, show fields.names = [] from h]
      rfl
    rw [if_pos hempty]

theorem findAll_of_ne_nil (h : Selection.namesOf p.distinct ≠ []) :
    r.findAll (some p) = r.findByDistinct p.distinct p.filter p.sort >>= fun values =>
      Program.ofExcept (Page.ofRequest (window p values) (.int values.length) p) := by
  rw [findAll]
  split
  · next hnone =>
    rw [hnone] at h
    exact absurd rfl h
  · next fields hfields =>
    rw [hfields] at h
    have hsome : fields.isEmpty = false := List.isEmpty_eq_false_iff.mpr h
    rw [hsome, hfields]
    rfl

theorem exists_directionFor (field : String) (keys : SortKeys) : ∃ d, directionFor field keys.value = .ok d := by
  cases keys with
  | nil => exact ⟨none, rfl⟩
  | cons key keys =>
    have hdirection : directionFor field (SortKeys.value (key :: keys)) =
        if (Value.text key.1 == .text field) = true then
          .ok (some (if Value.int key.2 == .int Direction.descending.sign then .descending else .ascending))
        else .ok none := rfl
    rw [hdirection]
    split
    · exact ⟨_, rfl⟩
    · exact ⟨_, rfl⟩

/-- All distinct values are put in order, and their number is told. -/
theorem exists_inOrder (field : String) (keys : SortKeys) {vs : List Value}
    (h : ∀ v ∈ vs, ∃ shown, v.display = .ok shown) :
    ∃ ws, inOrder field keys.value (.list vs) = .ok (vs.length, ws) ∧ ws.Perm vs := by
  obtain ⟨d, hd⟩ := exists_directionFor field keys
  rw [inOrder, hd]
  cases d with
  | none => exact ⟨vs, rfl, .refl vs⟩
  | some d =>
    obtain ⟨ws, hws, hperm⟩ := Value.exists_sorted d h
    refine ⟨ws, ?_, hperm⟩
    have helements : (Value.list vs).elements = .ok vs := rfl
    simp only [Outcome.ok_bind, helements, hws, hperm.length_eq, Outcome.pure_eq_ok]

section

variable (hstrategies : r.strategies = .standard) (hnames : (Operation.findAll (some p)).IsAcceptable r.mapping)
include hstrategies hnames

theorem exists_filterQuery (hfilter : p.filter.isUsable = true) : ∃ query shown,
    (r.strategies.filterQuery p.filter r.mapping).outcome = .ok query ∧ query.display = .ok shown := by
  have hmaps : r.mapping.MapsAll p.filter.names := fun name hname =>
    hnames.names name (by simp [Operation.names, Operation.filter, hname])
  obtain ⟨query, hquery⟩ := (checks_filterQuery r.mapping p.filter).accepts hfilter hmaps
  obtain ⟨shown, hshown⟩ := queryOf_display r.mapping hquery
  rw [hstrategies]
  exact ⟨query, shown, hquery, hshown⟩

theorem exists_sortKeys : ∃ keys : SortKeys,
    (r.strategies.sortKeys p.sort r.mapping).outcome = .ok keys.value := by
  have hmaps : r.mapping.MapsAll (SortOrder.names p.sort) := fun name hname =>
    hnames.names name (by simp [Operation.names, Operation.sort, hname])
  obtain ⟨value, hvalue⟩ := (checks_sortKeys r.mapping p.sort).accepts hmaps.isName hmaps
  obtain ⟨keys, rfl⟩ := sortKeys_value r.mapping hvalue
  rw [hstrategies]
  exact ⟨keys, hvalue⟩

/-- What a search for documents asks with. -/
theorem exists_search (hfilter : p.filter.isUsable = true) (hdocuments : Selection.namesOf p.distinct = []) :
    ∃ (query : Value) (shown : String) (keys : SortKeys) (projection : Value),
      (r.strategies.filterQuery p.filter r.mapping).outcome = .ok query ∧ query.display = .ok shown ∧
      (r.strategies.sortKeys p.sort r.mapping).outcome = .ok keys.value ∧
      (r.strategies.projection p.fields r.mapping).outcome = .ok projection := by
  obtain ⟨query, shown, hquery, hshown⟩ := exists_filterQuery hstrategies hnames hfilter
  obtain ⟨keys, hkeys⟩ := exists_sortKeys hstrategies hnames
  have hmaps : r.mapping.MapsAll (Selection.namesOf p.fields) := fun name hname =>
    hnames.names name (by simp [Operation.names, Operation.selection, hdocuments, hname])
  obtain ⟨projection, hprojection⟩ := (checks_projection r.mapping p.fields).accepts hmaps.isName hmaps
  rw [← hstrategies] at hprojection
  exact ⟨query, shown, keys, projection, hquery, hshown, hkeys, hprojection⟩

omit hstrategies in
theorem exists_distinctField (hvalues : Selection.namesOf p.distinct ≠ []) :
    ∃ field, r.distinctField p.distinct = .ok field := by
  have hmaps : r.mapping.MapsAll (Selection.namesOf p.distinct) := fun name hname =>
    hnames.names name (by simp [Operation.names, Operation.distinctFields, hname])
  exact (checks_distinctField p.distinct).accepts ⟨hvalues, hmaps.isName⟩ ⟨hnames.distinct, hmaps⟩

namespace Serves

variable (hfilter : p.filter.isUsable = true) (h : Serves engine ready r p results) {xs : List (Found α)}
include hfilter h

/-- All documents of the list are found. -/
theorem findBy (hdocuments : Selection.namesOf p.distinct = []) (hxs : results.mapM r.restored = .ok xs) {s : σ}
    (hs : ready s) : Succeeds engine (r.findBy p.filter p.sort p.fields) s fun found after =>
      found = xs ∧ ready after := by
  obtain ⟨query, shown, keys, projection, hquery, hshown, hkeys, hprojection⟩ :=
    exists_search hstrategies hnames hfilter hdocuments
  have hanswers := h.documents hdocuments query keys.value projection hquery hkeys hprojection
  have hrecords : Succeeds engine (r.findRecords p.filter p.sort p.fields) s fun found after =>
      found = results ∧ ready after := by
    apply Succeeds.bind_ofReported hquery
    apply Succeeds.bind_ofReported hkeys
    apply Succeeds.bind_ofReported hprojection
    apply Succeeds.bind (Succeeds.during _ (Succeeds.bind_opened (hanswers.whole s hs)))
    intro found after hfound
    exact Succeeds.bind_ofExcept hshown (Succeeds.bind_record (Succeeds.done hfound))
  apply Succeeds.bind hrecords
  rintro found after ⟨rfl, hafter⟩
  rw [hxs]
  exact Succeeds.done ⟨rfl, hafter⟩

/-- All values of the list are found, in an order that the keys tell. -/
theorem findByDistinct (hvalues : Selection.namesOf p.distinct ≠ []) : ∃ ordered : List Value, ordered.Perm results ∧
    ∀ xs, ordered.mapM r.restoredValue = .ok xs → ∀ s, ready s →
      Succeeds engine (r.findByDistinct p.distinct p.filter p.sort) s fun found after => found = xs ∧ ready after := by
  obtain ⟨field, hfield⟩ := exists_distinctField hnames hvalues
  obtain ⟨query, _, hquery, _⟩ := exists_filterQuery hstrategies hnames hfilter
  obtain ⟨keys, hkeys⟩ := exists_sortKeys hstrategies hnames
  obtain ⟨ordered, hordered, hperm⟩ := exists_inOrder field keys (h.shown hvalues)
  refine ⟨ordered, hperm, fun xs hxs s hs => ?_⟩
  have hdistinct : Succeeds engine (r.distinctValues p.distinct p.filter p.sort) s fun found after =>
      found = ordered ∧ ready after := by
    apply Succeeds.bind_ofExcept hfield
    apply Succeeds.bind_ofReported hquery
    apply Succeeds.bind_ofReported hkeys
    apply Succeeds.bind (Succeeds.during _ (Succeeds.bind_opened (h.values field query hfield hquery s hs)))
    rintro _ after ⟨rfl, hafter⟩
    exact Succeeds.bind_ofExcept hordered (Succeeds.bind_record (Succeeds.done ⟨rfl, hafter⟩))
  apply Succeeds.bind hdistinct
  rintro _ after ⟨rfl, hafter⟩
  rw [hxs]
  exact Succeeds.done ⟨rfl, hafter⟩

end Serves

end

end Repository

end EntityStore

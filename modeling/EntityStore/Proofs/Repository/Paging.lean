import EntityStore.Proofs.Paging.Windows
import EntityStore.Proofs.Repository.Serving

namespace EntityStore.Repository

open Program

variable {σ α : Type} {engine : Engine σ} {ready : σ → Prop} {r : Repository α} {p : PageRequest}
  {results : List Value}

/-- The pages that come of finding the page that is requested, and going on to the next one as long as there
is one. -/
inductive Walks (engine : Engine σ) (r : Repository α) : PageRequest → σ → List (Page (Found α)) → σ → Prop where
  | last {p : PageRequest} {page : Page (Found α)} {before after : σ}
      (found : Ends engine (r.findAll (some p)) before (.ok page) after) (ends : page.hasNext = false) :
      Walks engine r p before [page] after
  | next {p : PageRequest} {page : Page (Found α)} {pages : List (Page (Found α))} {before between after : σ}
      (found : Ends engine (r.findAll (some p)) before (.ok page) between) (continues : page.hasNext = true)
      (rest : Walks engine r p.next between pages after) :
      Walks engine r p before (page :: pages) after

/-- Pages that are found one after the other are walked along up to the last one. -/
theorem exists_walks {xs : List (Found α)} {pages : Nat}
    (hpage : ∀ k, 1 ≤ k → (k = 1 ∨ k ≤ pages) → ∀ s, ready s →
      Succeeds engine (r.findAll (some (p.withNumber k))) s fun page after => page = p.pageOf xs pages k ∧ ready after)
    {k n : Nat} (hk : 1 ≤ k) (hvisited : k = 1 ∨ k ≤ pages) (hrest : max k pages = k + n) {s : σ} (hs : ready s) :
    ∃ after, Walks engine r (p.withNumber k) s ((List.range' k (n + 1)).map (p.pageOf xs pages)) after := by
  induction n generalizing k s with
  | zero =>
    obtain ⟨_, after, hends, rfl, _⟩ := hpage k hk hvisited s hs
    refine ⟨after, Walks.last hends ?_⟩
    rw [PageRequest.hasNext_pageOf]
    exact decide_eq_false (by omega)
  | succ n ih =>
    obtain ⟨_, between, hends, rfl, hbetween⟩ := hpage k hk hvisited s hs
    obtain ⟨after, hwalks⟩ := ih (k := k + 1) (by omega) (by omega) (by omega) hbetween
    refine ⟨after, Walks.next hends ?_ ?_⟩
    · rw [PageRequest.hasNext_pageOf]
      exact decide_eq_true (by omega)
    · rw [PageRequest.next_withNumber]
      exact hwalks

section

variable (hstrategies : r.strategies = .standard) (hnames : (Operation.findAll (some p)).IsAcceptable r.mapping)
  (hfilter : p.filter.isUsable = true)
include hstrategies hnames hfilter

namespace Serves

variable (h : Serves engine ready r p results) {xs : List (Found α)}
include h

/-- The documents of a page are found, and counted, as long as the window can be told. -/
theorem pageRecords (hdocuments : Selection.namesOf p.distinct = []) {k : Nat} (hk : 1 ≤ k)
    {text : String} (hskip : IntegerText.shown (p.withNumber k).offset = .ok text)
    (hlimit : p.pageSize < 10 ^ IntegerText.mostDigits) {s : σ} (hs : ready s) :
    Succeeds engine (r.pageRecords (p.withNumber k)) s fun found after =>
      found = (.int results.length, window (p.withNumber k) results) ∧ ready after := by
  obtain ⟨query, shown, keys, projection, hquery, hshown, hkeys, hprojection⟩ :=
    exists_search hstrategies hnames hfilter hdocuments
  have hanswers := h.documents hdocuments query keys.value projection hquery hkeys hprojection
  have hlimitShown : IntegerText.shown (p.withNumber k).limit = .ok (toString p.pageSize) := by
    rw [p.limit_withNumber, IntegerText.shown_natCast, if_pos hlimit]
  have hoffset := p.offset_withNumber hk
  have hsize := p.limit_withNumber k
  have hwindow : (results.drop (p.withNumber k).offset.toNat).take (p.withNumber k).limit.toNat =
      window (p.withNumber k) results := by
    rw [p.window_withNumber results hk, hoffset, hsize, Int.toNat_natCast, Int.toNat_natCast]
  apply Succeeds.bind_ofReported hquery
  apply Succeeds.bind_ofReported hkeys
  apply Succeeds.bind_ofReported hprojection
  apply Succeeds.bind_ofExcept hshown
  apply Succeeds.bind_ofExcept hskip
  apply Succeeds.bind_ofExcept hlimitShown
  apply Succeeds.bind_record
  apply Succeeds.during
  apply Succeeds.bind_opened
  apply Succeeds.bind (hanswers.count s hs)
  rintro total between ⟨rfl, hbetween⟩
  have hpaired : Succeeds engine ((do
      openCursor query projection keys.value
      request (.skip (p.withNumber k).offset)
      request (.limit (p.withNumber k).limit)
      request .fetch) >>= fun records => pure (Value.int results.length, records)) between fun found after =>
        found = (.int results.length, window (p.withNumber k) results) ∧ ready after := by
    have hfirst : 0 ≤ (p.withNumber k).offset := hoffset ▸ Int.natCast_nonneg _
    have hsome : 1 ≤ (p.withNumber k).limit := hsize ▸ Int.ofNat_le.mpr p.pageSize_pos
    apply Succeeds.bind (hanswers.part between hbetween _ _ hfirst hsome)
    rintro found after ⟨rfl, hafter⟩
    exact Succeeds.done ⟨by rw [hwindow], hafter⟩
  simpa only [bind_assoc] using hpaired

theorem findPage (hdocuments : Selection.namesOf p.distinct = []) (hxs : results.mapM r.restored = .ok xs)
    {pages k : Nat} (hpages : (p.withNumber k).pagesFor (.int results.length) = .ok (pages : Int)) (hk : 1 ≤ k)
    {text : String} (hskip : IntegerText.shown (p.withNumber k).offset = .ok text)
    (hlimit : p.pageSize < 10 ^ IntegerText.mostDigits) {s : σ} (hs : ready s) :
    Succeeds engine (r.findPage (p.withNumber k)) s fun page after => page = p.pageOf xs pages k ∧ ready after := by
  have hall := Outcome.mapM_eq_ok_iff.mp hxs
  have hcontent : (window (p.withNumber k) results).mapM r.restored = .ok (window (p.withNumber k) xs) := by
    rw [p.window_withNumber results hk, p.window_withNumber xs hk]
    exact Outcome.mapM_eq_ok_iff.mpr (List.forall₂_take _ (List.forall₂_drop _ hall))
  apply Succeeds.bind (pageRecords hstrategies hnames hfilter h hdocuments hk hskip hlimit hs)
  rintro _ after ⟨rfl, hafter⟩
  apply Succeeds.bind_ofExcept hcontent
  rw [Page.ofRequest, hpages, hall.length_eq]
  exact Succeeds.done ⟨rfl, hafter⟩

end Serves

/-- A size of too many digits is refused before anything is asked, but not where values are found. -/
theorem findAll_untold (hdocuments : Selection.namesOf p.distinct = []) {k : Nat} {text : String}
    (hskip : IntegerText.shown (p.withNumber k).offset = .ok text)
    (hlimit : ¬p.pageSize < 10 ^ IntegerText.mostDigits) (s : σ) :
    Ends engine (r.findAll (some (p.withNumber k))) s (.error (.tooLongToShow IntegerText.mostDigits)) s := by
  obtain ⟨query, shown, keys, projection, hquery, hshown, hkeys, hprojection⟩ :=
    exists_search hstrategies hnames hfilter hdocuments
  have hrecords : Ends engine (r.pageRecords (p.withNumber k)) s
      (.error (.tooLongToShow IntegerText.mostDigits)) s := by
    apply Ends.bind_ofReported hquery
    apply Ends.bind_ofReported hkeys
    apply Ends.bind_ofReported hprojection
    apply Ends.bind_ofExcept hshown
    apply Ends.bind_ofExcept hskip
    apply Ends.bind_error
    rw [p.limit_withNumber, IntegerText.shown_natCast, if_neg hlimit]
    exact Ends.ofExcept _ s
  rw [findAll_of_nil (p := p.withNumber k) hdocuments]
  exact Ends.bind_error hrecords

end

/-- A page of distinct values is cut out of all of them. -/
theorem findAll_values (hvalues : Selection.namesOf p.distinct ≠ []) {xs : List (Found α)}
    (hfound : ∀ s, ready s → Succeeds engine (r.findByDistinct p.distinct p.filter p.sort) s fun found after =>
      found = xs ∧ ready after)
    {pages k : Nat} (hpages : (p.withNumber k).pagesFor (.int xs.length) = .ok (pages : Int)) {s : σ} (hs : ready s) :
    Succeeds engine (r.findAll (some (p.withNumber k))) s fun page after =>
      page = p.pageOf xs pages k ∧ ready after := by
  rw [findAll_of_ne_nil (p := p.withNumber k) hvalues]
  apply Succeeds.bind (hfound s hs)
  rintro _ after ⟨rfl, hafter⟩
  rw [Page.ofRequest, hpages]
  exact Succeeds.done ⟨rfl, hafter⟩

/-- What is found without pages, and one page of it. -/
theorem Serves.exists_found (hstrategies : r.strategies = .standard)
    (hnames : (Operation.findAll (some p)).IsAcceptable r.mapping) (hfilter : p.filter.isUsable = true)
    (h : Serves engine ready r p results) (hmade : ∀ v ∈ results, ∃ x, r.made p v = .ok x) :
    ∃ (ordered : List Value) (xs : List (Found α)), ordered.Perm results ∧
      (Selection.namesOf p.distinct = [] → ordered = results) ∧ ordered.mapM (r.made p) = .ok xs ∧
      (∀ s, ready s → Succeeds engine (r.unpaged p) s fun found after => found = xs ∧ ready after) ∧
      ∀ (pages k : Nat) (text : String), (p.withNumber k).pagesFor (.int xs.length) = .ok (pages : Int) → 1 ≤ k →
        p.IsTold → IntegerText.shown (p.withNumber k).offset = .ok text → ∀ s, ready s →
          Succeeds engine (r.findAll (some (p.withNumber k))) s fun page after =>
            page = p.pageOf xs pages k ∧ ready after := by
  by_cases hdocuments : Selection.namesOf p.distinct = []
  · rw [made_of_nil hdocuments] at hmade ⊢
    obtain ⟨xs, hxs⟩ := Outcome.exists_mapM_ok hmade
    have hlength := (Outcome.mapM_eq_ok_iff.mp hxs).length_eq
    refine ⟨results, xs, .refl results, fun _ => rfl, hxs, ?_, ?_⟩
    · intro s hs
      rw [unpaged_of_nil hdocuments]
      exact findBy hstrategies hnames hfilter h hdocuments hxs hs
    · intro pages k text hpages hk htold hskip s hs
      rw [← hlength] at hpages
      rw [findAll_of_nil (p := p.withNumber k) hdocuments]
      exact findPage hstrategies hnames hfilter h hdocuments hxs hpages hk hskip (htold hdocuments) hs
  · obtain ⟨ordered, hperm, hfound⟩ := findByDistinct hstrategies hnames hfilter h hdocuments
    rw [made_of_ne_nil hdocuments] at hmade ⊢
    obtain ⟨xs, hxs⟩ := Outcome.exists_mapM_ok fun v hv => hmade v (hperm.mem_iff.mp hv)
    refine ⟨ordered, xs, hperm, fun h => absurd h hdocuments, hxs, ?_, ?_⟩
    · intro s hs
      rw [unpaged_of_ne_nil hdocuments]
      exact hfound xs hxs s hs
    · intro pages k _ hpages _ _ _ s hs
      exact findAll_values hdocuments (hfound xs hxs) hpages hs

/-- Walking along the pages of a request, from the first one on, yields all that is found without pages, which is
made of each result once; documents keep the order of the results. A size that has too many digits for a record is
refused at once where entities are asked for, and only there. -/
theorem walk_covers (hstrategies : r.strategies = .standard)
    (hnames : (Operation.findAll (some p)).IsAcceptable r.mapping) (hfilter : p.filter.isUsable = true)
    (h : Serves engine ready r p results) (hmany : results.length < 2 ^ 53)
    (hmade : ∀ v ∈ results, ∃ x, r.made p v = .ok x) {s : σ} (hs : ready s) :
    ∃ (ordered : List Value) (xs : List (Found α)), ordered.Perm results ∧
      (Selection.namesOf p.distinct = [] → ordered = results) ∧ ordered.mapM (r.made p) = .ok xs ∧
      xs.length = results.length ∧
      (∀ t, ready t → Succeeds engine (r.unpaged p) t fun found after => found = xs ∧ ready after) ∧
      (p.IsTold → ∃ pages after, Walks engine r (p.withNumber 1) s pages after ∧ Covers xs p.pageSize pages) ∧
      (¬p.IsTold → Ends engine (r.findAll (some (p.withNumber 1))) s
        (.error (.tooLongToShow IntegerText.mostDigits)) s) := by
  obtain ⟨ordered, xs, hperm, horder, hxs, hunpaged, hpage⟩ := h.exists_found hstrategies hnames hfilter hmade
  have hlength : xs.length = results.length := by
    rw [← hperm.length_eq, (Outcome.mapM_eq_ok_iff.mp hxs).length_eq]
  rw [← hlength] at hmany
  obtain ⟨pages, hfills, hpages⟩ := p.exists_fills hmany
  refine ⟨ordered, xs, hperm, horder, hxs, hlength, hunpaged, ?_, ?_⟩
  · intro htold
    have hone (k : Nat) (hk : 1 ≤ k) (hvisited : k = 1 ∨ k ≤ pages) :=
      hpage pages k _ (hpages k) hk htold (hfills.shown_offset hmany hk hvisited)
    obtain ⟨n, hn⟩ : ∃ n, max 1 pages = 1 + n := Nat.exists_eq_add_of_le (Nat.le_max_left 1 pages)
    obtain ⟨after, hwalks⟩ := exists_walks hone (Nat.le_refl 1) (Or.inl rfl) hn hs
    refine ⟨_, after, hwalks, ?_⟩
    rw [Nat.add_comm, ← hn]
    exact hfills.covers
  · intro huntold
    have hdocuments : Selection.namesOf p.distinct = [] := by
      by_contra hvalues
      exact huntold fun hnone => absurd hnone hvalues
    have hlimit : ¬p.pageSize < 10 ^ IntegerText.mostDigits := fun hless => huntold fun _ => hless
    have hskip := hfills.shown_offset hmany (Nat.le_refl 1) (Or.inl rfl)
    exact findAll_untold hstrategies hnames hfilter hdocuments hskip hlimit s

/-- The shoppers with two orders or more, by their numbers and so many on a page. -/
def regulars (size : Int) : PageRequest :=
  ⟨1, size, some ⟨[(.text "number", .ascending)]⟩,
    .filter ⟨[⟨"orders", .comparison .greaterOrEqual (.int 2), rfl⟩], [], []⟩, none, none⟩

/-- A shopper as stored, with a number of orders. -/
def storedShopper (number : Int) (name : String) (orders : Int) : Document :=
  [(.text "_id", .int number), (.text "shopper_number", .int number), (.text "shopper_name", .text name),
    (.text "orders", .plain [(.text "total", .int orders)])]

def visitors : List Document :=
  [storedShopper 1 "Ada" 4, storedShopper 2 "Ken" 1, storedShopper 3 "Eve" 2, storedShopper 4 "Bob" 7]

/-- Those of them that are regulars. -/
def regularVisitors : List Value :=
  [storedShopper 1 "Ada" 4, storedShopper 3 "Eve" 2, storedShopper 4 "Bob" 7].map .plain

theorem serves_regulars (size : Int) : Serves (Collection.engine .plain) (fun c => c.documents = visitors) shop
    (regulars size) regularVisitors := by
  let asked : Query := .all [.field "orders.total" (.comparison .greaterOrEqual (.int 2))]
  let keys : SortKeys := [("shopper_number", 1)]
  constructor
  · intro _ query keysValue projection hquery hkeys hprojection
    obtain rfl : asked.document = query := Except.ok.inj hquery
    obtain rfl : keys.value = keysValue := Except.ok.inj hkeys
    obtain rfl : Value.null = projection := Except.ok.inj hprojection
    have hfound : (Collection.found .plain asked.document .null keys.value visitors).map .plain = regularVisitors := rfl
    rw [← hfound]
    exact answersFrom_collection (fun _ _ => rfl) visitors asked.document .null keys.value
  · intro field query hfield
    cases hfield
  · intro hvalues
    exact absurd rfl hvalues

/-- A size of which no record can tell. -/
def hugeSize : Int := (10 ^ IntegerText.mostDigits : Nat)

/-- Two of them on a page make two pages; with a size of which no record can tell there is not even a first one. -/
theorem walk_covers_regulars :
    (∀ size, (regulars size).filter.isUsable = true ∧ (Operation.findAll (some (regulars size))).IsAcceptable shoppers ∧
      Serves (Collection.engine .plain) (fun c => c.documents = visitors) shop (regulars size) regularVisitors) ∧
    (∃ pages after, Walks (Collection.engine .plain) shop ((regulars 2).withNumber 1) ⟨visitors, [], 0⟩ pages after ∧
      pages.flatMap (·.content) = regularVisitors.map (fun v => .plain v.normalized) ∧ pages.length = 2) ∧
    ((shop.findAll (some ((regulars hugeSize).withNumber 1))).run (Collection.engine .plain)
      ⟨⟨visitors, [], 0⟩, false⟩).outcome = .error (.tooLongToShow IntegerText.mostDigits) := by
  have hmaps : shoppers.MapsAll (Operation.findAll (some (regulars 2))).names := by
    unfold Mapping.MapsAll
    decide
  have hnames (size : Int) : (Operation.findAll (some (regulars size))).IsAcceptable shoppers :=
    ⟨hmaps, List.forall_mem_nil _, Nat.zero_le 1⟩
  have hmade : regularVisitors.mapM (shop.made (regulars 2)) = .ok (regularVisitors.map fun v => .plain v.normalized) :=
    rfl
  have covers (size : Int) := walk_covers rfl (hnames size) rfl (serves_regulars size) (by decide) (fun v _ => ⟨_, rfl⟩)
    (s := ⟨visitors, [], 0⟩) rfl
  refine ⟨fun size => ⟨rfl, hnames size, serves_regulars size⟩, ?_, ?_⟩
  · have htold : (regulars 2).IsTold := by
      intro _
      calc (regulars 2).pageSize < 10 ^ 1 := by decide
        _ ≤ 10 ^ IntegerText.mostDigits := Nat.pow_le_pow_right (by decide) (by decide)
    obtain ⟨ordered, xs, _, horder, hxs, _, _, hwalks, _⟩ := covers 2
    obtain ⟨pages, after, hpages, hcovers⟩ := hwalks htold
    obtain rfl := horder rfl
    obtain rfl := Except.ok.inj (hmade.symm.trans hxs)
    exact ⟨pages, after, hpages, hcovers.contents, hcovers.length⟩
  · -- The size is a variable here, as nothing is to compute with its digits.
    have fails (size : Nat) (hsize : 10 ^ IntegerText.mostDigits ≤ size) : ((shop.findAll (some ((regulars
        size).withNumber 1))).run (Collection.engine .plain) ⟨⟨visitors, [], 0⟩, false⟩).outcome =
          .error (.tooLongToShow IntegerText.mostDigits) := by
      have huntold : ¬(regulars size).IsTold := by
        intro htold
        have hsame : (regulars size).pageSize = size := by
          have hone : ¬(size : Int) < 1 := by
            have := Nat.one_le_two_pow.trans (Nat.pow_le_pow_left (by decide : 2 ≤ 10) IntegerText.mostDigits)
            omega
          simp [PageRequest.pageSize, PageRequest.atLeastOne, regulars, hone]
        exact absurd (hsame ▸ htold rfl) (Nat.not_lt.mpr hsize)
      obtain ⟨_, _, _, _, _, _, _, _, huntold'⟩ := covers size
      exact (huntold' huntold).outcome false
    exact fails _ (Nat.le_refl _)

end EntityStore.Repository

import EntityStore.Proofs.Document.Overwriting
import EntityStore.Proofs.Document.SharedPlaces
import EntityStore.Proofs.Document.WritingBelow

namespace EntityStore

open Document Expand

namespace Sharing

/-- What setting a value does to the shared document of a pair of names: it is written to if the path leads through its
place. -/
def writeBelow (name : String) (p : Path) (v : Value) (pair : String × String) (w : Value) : Value :=
  if placeOf pair <+: p then w.mapFields (setBelow name (Path.keys (p.drop (placeOf pair).length)) v) else w

/-- A document changed if it is shared under a pair of names. -/
def changeShared (pairs : List (String × String)) (change : String × String → Value → Value) (pair : String × String)
    (w : Value) : Value :=
  if pair ∈ pairs then change pair w else w

/-- A field with the documents changed that it shares. -/
def mapShared (pairs : List (String × String)) (change : String × String → Value → Value) (e : String × Value) :
    String × Value :=
  (e.1, e.2.mapDocuments fun f w => changeShared pairs change (e.1, f) w)

/-- A field that was set, after another one was set in the result. -/
def written (g : String × Value) (pairs : List (String × String)) : String × Value → String × Value :=
  mapShared pairs (writeBelow g.1 (Path.ofText g.1) g.2)

/-- Whether each of the documents that are shared is the same one in the result and in the fields that were set. -/
structure Coheres (d : Document) (done : List (String × Value)) (pairs : List (String × String)) : Prop where
  nodup : pairs.Nodup
  same : ∀ pair ∈ pairs, ∃ k x, k ≠ .readOnly ∧
    (Value.plain (named done)).reached? [.text pair.1, .text pair.2] = some (.document k x) ∧
    (Value.plain d).reached? (Path.keys (placeOf pair)) = some (.document k x)

/-- The pairs of names under which documents are shared once another field was set. -/
def pairsAfter (d : Document) (g : String × Value) (pairs : List (String × String)) : List (String × String) :=
  if (valueAt? (Path.ofText g.1).keys d).isSome then
    (pairs.filter fun pair => !overwrites g.2 (Path.ofText g.1) (placeOf pair)) ++
      (nestedNames g.2).map fun f => (g.1, f)
  else pairs

variable {name s f : String} {p q : Path} {v w : Value} {d d' x : Document} {kind k : DocumentKind}
  {pair : String × String} {pairs : List (String × String)} {es done rest : List (String × Value)}
  {e g : String × Value} {change change' : String × String → Value → Value}

theorem changeShared_cons (h : pair ∉ pairs) (other : String × String) (w : Value) :
    changeShared pairs change other (changeShared [pair] change other w) =
      changeShared (pair :: pairs) change other w := by
  by_cases hother : other = pair
  · subst hother
    simp [changeShared, h]
  · simp [changeShared, hother]

theorem isWritableDocument_changeShared
    (hchange : ∀ {w : Value}, w.isWritableDocument = true → (change pair w).isWritableDocument = true)
    (h : w.isWritableDocument = true) : (changeShared pairs change pair w).isWritableDocument = true := by
  rw [changeShared]
  split
  · exact hchange h
  · exact h

theorem mapShared_congr (h : ∀ f w, (e.1, f) ∈ pairs → e.2.HoldsDocument f w → change (e.1, f) w = change' (e.1, f) w) :
    mapShared pairs change e = mapShared pairs change' e := by
  rw [mapShared, mapShared]
  congr 1
  refine Value.mapDocuments_congr fun f w hw => ?_
  rw [changeShared, changeShared]
  split
  · next hpair => exact h f w hpair hw
  · rfl

theorem mapShared_eq_self (h : ∀ f w, (e.1, f) ∈ pairs → e.2.HoldsDocument f w → change (e.1, f) w = w) :
    mapShared pairs change e = e := by
  have hself : e.2.mapDocuments (fun f w => changeShared pairs change (e.1, f) w) = e.2 := by
    refine Value.mapDocuments_eq_self fun f w hw => ?_
    rw [changeShared]
    split
    · next hpair => exact h f w hpair hw
    · rfl
  rw [mapShared, hself]

theorem reached?_mapShared (pairs : List (String × String)) (change : String × String → Value → Value)
    (es : List (String × Value)) (s f : String) :
    (Value.plain (named (es.map (mapShared pairs change)))).reached? [.text s, .text f] =
      ((Value.plain (named es)).reached? [.text s, .text f]).map fun w =>
        if w.isWritableDocument then changeShared pairs change (s, f) w else w := by
  have hget : Dictionary.get? (.text s) (named (es.map (mapShared pairs change))) =
      (Dictionary.get? (.text s) (named es)).map fun v =>
        v.mapDocuments fun f w => changeShared pairs change (s, f) w :=
    get?_named_map _ s es
  rw [reached?_named, reached?_named, hget]
  cases Dictionary.get? (.text s) (named es) with
  | none => rfl
  | some w => exact Value.reached?_mapDocuments _ w f

theorem pairwise_mapShared (h : es.Pairwise fun e f => e.1 ≠ f.1) :
    (es.map (mapShared pairs change)).Pairwise fun e f => e.1 ≠ f.1 :=
  List.pairwise_map.mpr h

theorem pairwise_mapShared_append (h : (done ++ rest).Pairwise fun e f => e.1 ≠ f.1) :
    (done.map (mapShared pairs change) ++ rest).Pairwise fun e f => e.1 ≠ f.1 := by
  rw [← List.pairwise_map (f := Prod.fst) (R := fun s t => s ≠ t)] at h ⊢
  simpa [mapShared, Function.comp_def] using h

theorem hasDistinctKeys_mapShared (h : ∀ e ∈ es, e.2.HasDistinctKeys) :
    ∀ e ∈ es.map (mapShared pairs change), e.2.HasDistinctKeys := by
  intro e' he'
  obtain ⟨e, he, rfl⟩ := List.mem_map.mp he'
  exact Value.hasDistinctKeys_mapDocuments (h e he)

theorem isWritableDocument_writeBelow (h : w.isWritableDocument = true) :
    (writeBelow name p v pair w).isWritableDocument = true := by
  obtain ⟨k, x, rfl, hk⟩ := Value.exists_of_isWritableDocument h
  rw [writeBelow]
  split
  · exact Value.isWritableDocument_document hk
  · exact h

/-- Setting a value does to a shared document what it does to the one at its place in the result. -/
theorem reached?_setBelow (hv : v.HasDistinctKeys) (hk : k ≠ .readOnly)
    (h : (Value.plain d).reached? (Path.keys (placeOf pair)) = some (.document k x))
    (hkept : overwrites v p (placeOf pair) = false) :
    (Value.plain (setBelow name p.keys v d)).reached? (Path.keys (placeOf pair)) =
      some (writeBelow name p v pair (.document k x)) := by
  rw [writeBelow]
  split
  · next hprefix =>
    obtain ⟨q, rfl⟩ := hprefix
    rw [List.drop_left]
    exact reached?_setBelow_of_prefix plain_ne_readOnly hk h
  · next hprefix =>
    refine reached?_setBelow_of_kept plain_ne_readOnly hk hv h hprefix fun hoverwrites => ?_
    rw [overwrites_iff.mpr hoverwrites] at hkept
    cases hkept

theorem exists_reached?_setBelow (name : String) (hv : v.HasDistinctKeys) (hk : k ≠ .readOnly)
    (h : (Value.plain d).reached? (Path.keys (placeOf pair)) = some (.document k x))
    (hkept : overwrites v p (placeOf pair) = false) :
    ∃ k' x', k' ≠ .readOnly ∧
      (Value.plain (setBelow name p.keys v d)).reached? (Path.keys (placeOf pair)) = some (.document k' x') := by
  have hdoc : (writeBelow name p v pair (.document k x)).isWritableDocument = true :=
    isWritableDocument_writeBelow (Value.isWritableDocument_document hk)
  obtain ⟨k', x', hwritten, hk'⟩ := Value.exists_of_isWritableDocument hdoc
  exact ⟨k', x', hk', hwritten ▸ reached?_setBelow hv hk h hkept⟩

/-- Writing to one shared document. -/
theorem setInGiven_named (hnames : es.Pairwise fun e f => e.1 ≠ f.1) (hdistinct : ∀ e ∈ es, e.2.HasDistinctKeys)
    (hk : k ≠ .readOnly) (h : (Value.plain (named es)).reached? [.text pair.1, .text pair.2] = some (.document k x)) :
    setInGiven name p.keys v (named es) (sharedUnder pair) =
      named (es.map (mapShared [pair] (writeBelow name p v))) := by
  rw [reached?_named] at h
  obtain ⟨u, hu, hx⟩ := Option.bind_eq_some_iff.mp h
  have he := exists_of_get?_named hu
  rw [setInGiven_sharedUnder]
  split
  · next hprefix =>
    rw [modifyAt_named hnames he (hdistinct _ he) hk hx]
    congr 1
    refine List.map_congr_left fun e _ => ?_
    rw [mapShared]
    congr 1
    refine Value.mapDocuments_congr fun f w _ => ?_
    by_cases hpair : (e.1, f) = pair
    · rw [if_pos hpair, changeShared, if_pos (List.mem_singleton.mpr hpair), hpair, writeBelow, if_pos hprefix]
    · rw [if_neg hpair, changeShared, if_neg fun h => hpair (List.mem_singleton.mp h)]
  · next hprefix =>
    have hself : ∀ e ∈ es, mapShared [pair] (writeBelow name p v) e = e := by
      refine fun e _ => mapShared_eq_self fun f w hpair _ => ?_
      rw [List.mem_singleton.mp hpair, writeBelow, if_neg hprefix]
    rw [List.map_congr_left hself, List.map_id']

/-- Writing to the shared documents one after the other writes to each of them once. -/
theorem foldl_sharedUnder (hpairs : pairs.Nodup) (hnames : es.Pairwise fun e f => e.1 ≠ f.1)
    (hdistinct : ∀ e ∈ es, e.2.HasDistinctKeys)
    (hheld : ∀ pair ∈ pairs, ∃ k x, k ≠ .readOnly ∧
      (Value.plain (named es)).reached? [.text pair.1, .text pair.2] = some (.document k x)) :
    (pairs.map sharedUnder).foldl (setInGiven name p.keys v) (named es) =
      named (es.map (mapShared pairs (writeBelow name p v))) := by
  induction pairs generalizing es with
  | nil =>
    have hself : ∀ e ∈ es, mapShared [] (writeBelow name p v) e = e :=
      fun e _ => mapShared_eq_self fun f w hpair _ => absurd hpair List.not_mem_nil
    rw [List.map_congr_left hself, List.map_id']
    rfl
  | cons pair pairs ih =>
    obtain ⟨hpair, hpairs⟩ := List.nodup_cons.mp hpairs
    obtain ⟨⟨k, x, hk, hx⟩, hrest⟩ := List.forall_mem_cons.mp hheld
    rw [List.map_cons, List.foldl_cons, setInGiven_named hnames hdistinct hk hx,
      ih hpairs (pairwise_mapShared hnames) (hasDistinctKeys_mapShared hdistinct) ?_, List.map_map]
    · congr 1
      refine List.map_congr_left fun e _ => ?_
      rw [Function.comp_apply, mapShared, mapShared, mapShared, Value.mapDocuments_mapDocuments]
      · simp only [changeShared_cons hpair]
      · exact fun f w hw => isWritableDocument_changeShared isWritableDocument_writeBelow hw.isWritableDocument
    · intro other hother
      obtain ⟨k, x, hk, hx⟩ := hrest other hother
      have hne : other ∉ [pair] := by
        rintro hmem
        obtain rfl := List.mem_singleton.mp hmem
        exact hpair hother
      refine ⟨k, x, hk, ?_⟩
      rw [reached?_mapShared, hx, Option.map_some, changeShared, if_neg hne, ite_self]

/-- What overwrites a place of the result is merged into a document above it. -/
theorem isSome_valueAt?_of_overwrites (hp : p ≠ []) (hkind : kind ≠ .readOnly) (hk : k ≠ .readOnly)
    (h : (Value.document kind d).reached? q.keys = some (.document k x)) (hoverwrites : overwrites v p q = true) :
    (valueAt? p.keys d).isSome = true := by
  induction p generalizing q kind d with
  | nil => exact absurd rfl hp
  | cons s p ih =>
    cases q with
    | nil => cases hoverwrites
    | cons t q =>
      rw [overwrites, Bool.and_eq_true, beq_iff_eq] at hoverwrites
      obtain ⟨rfl, hbelow⟩ := hoverwrites
      obtain ⟨kind', fields, hkind', hs, hreached⟩ := exists_of_reached?_cons hkind hk h
      cases p with
      | nil => rw [valueAt?_one, hs, Option.isSome_some]
      | cons t p =>
        have hbranch : branch? (Dictionary.get? (.text s) d) = some (kind', fields) := by rw [hs, branch?]
        rw [valueAt?_branch hbranch]
        exact ih (List.cons_ne_nil t p) hkind' hreached hbelow

/-- The pairs of names follow what is shared. -/
theorem filter_sharedAfter {shared : List Shared} (given : Document)
    (hset : setAt g.1 (Path.ofText g.1).keys g.2 d = .ok d') (hshared : shared.filter IsNamed = pairs.map sharedUnder) :
    (sharedAfter (.text g.1) (Path.ofText g.1).keys g.2 ⟨d, given, shared⟩).filter IsNamed =
      (pairsAfter d g pairs).map sharedUnder := by
  rw [sharedAfter, pairsAfter]
  cases hpresent : valueAt? (Path.ofText g.1).keys d with
  | none => exact hshared
  | some old =>
    obtain ⟨_, _, ⟨kind, new⟩, -, -, hnew⟩ := exists_of_setAt_present plain_ne_readOnly hset (by rw [hpresent]; rfl)
    simp only [hnew]
    exact filter_sharedByMerge hnew hshared

theorem overwrites_eq_false_of_not_merged (hcoheres : Coheres d done pairs)
    (hmerged : ¬(valueAt? (Path.ofText g.1).keys d).isSome = true) (hpair : pair ∈ pairs) :
    overwrites g.2 (Path.ofText g.1) (placeOf pair) = false := by
  obtain ⟨k, x, hk, -, hresult⟩ := hcoheres.same pair hpair
  refine Bool.eq_false_iff.mpr fun hoverwrites => hmerged ?_
  exact isSome_valueAt?_of_overwrites (Path.ofText_ne_nil g.1) plain_ne_readOnly hk hresult hoverwrites

/-- A shared document that is not overwritten stays shared, and so do the documents of a field that is merged. -/
theorem mem_pairsAfter (hcoheres : Coheres d done pairs) : pair ∈ pairsAfter d g pairs ↔
    (pair ∈ pairs ∧ overwrites g.2 (Path.ofText g.1) (placeOf pair) = false) ∨
      ((valueAt? (Path.ofText g.1).keys d).isSome = true ∧ pair.1 = g.1 ∧ pair.2 ∈ nestedNames g.2) := by
  rw [pairsAfter]
  split
  · next hmerged =>
    simp only [List.mem_append, List.mem_filter, List.mem_map, Bool.not_eq_true', hmerged, true_and]
    constructor
    · rintro (hpair | ⟨f, hf, rfl⟩)
      · exact .inl hpair
      · exact .inr ⟨rfl, hf⟩
    · rintro (hpair | ⟨hname, hf⟩)
      · exact .inl hpair
      · exact .inr ⟨pair.2, hf, by rw [← hname]⟩
  · next hmerged =>
    constructor
    · intro hpair
      exact .inl ⟨hpair, overwrites_eq_false_of_not_merged hcoheres hmerged hpair⟩
    · rintro (⟨hpair, -⟩ | ⟨habsent, -⟩)
      · exact hpair
      · exact absurd habsent hmerged

/-- What is shared is shared with a field that was set. -/
theorem Coheres.exists_mem (h : Coheres d done pairs) (hpair : pair ∈ pairs) : ∃ e ∈ done, e.1 = pair.1 := by
  obtain ⟨_, _, _, hgiven, _⟩ := h.same pair hpair
  rw [reached?_named] at hgiven
  obtain ⟨u, hu, -⟩ := Option.bind_eq_some_iff.mp hgiven
  exact ⟨_, exists_of_get?_named hu, rfl⟩

theorem Coheres.nodup_pairsAfter (h : Coheres d done pairs) (hname : ∀ e ∈ done, e.1 ≠ g.1)
    (hg : g.2.HasDistinctKeys) : (pairsAfter d g pairs).Nodup := by
  rw [pairsAfter]
  split
  · refine List.nodup_append.mpr ⟨h.nodup.filter _, ?_, ?_⟩
    · exact List.pairwise_map.mpr ((nodup_nestedNames hg).imp fun hne heq => hne (Prod.mk.inj heq).2)
    · intro pair hpair other hother heq
      obtain ⟨f, -, rfl⟩ := List.mem_map.mp hother
      obtain ⟨e, he, hsame⟩ := h.exists_mem (List.mem_of_mem_filter hpair)
      exact hname e he (hsame.trans (congrArg Prod.fst heq))
  · exact h.nodup

/-- Setting a field keeps the documents that are shared the same, and those of a field that is merged are the same
then. -/
theorem Coheres.step (h : Coheres d done pairs) (hnames : (done ++ [g]).Pairwise fun e f => e.1 ≠ f.1)
    (hg : g.2.HasDistinctKeys) (hset : setAt g.1 (Path.ofText g.1).keys g.2 d = .ok d') :
    Coheres d' (done.map (written g pairs) ++ [g]) (pairsAfter d g pairs) := by
  have hpath : Path.ofText g.1 ≠ [] := Path.ofText_ne_nil g.1
  have hnames' : (done.map (written g pairs) ++ [g]).Pairwise fun e f => e.1 ≠ f.1 :=
    pairwise_mapShared_append hnames
  constructor
  · exact h.nodup_pairsAfter (fun e he => (List.pairwise_append.mp hnames).2.2 e he g (by simp)) hg
  · intro pair hpair
    rcases (mem_pairsAfter h).mp hpair with ⟨hold, hkept⟩ | ⟨hmerged, hname, hf⟩
    -- Both sides are written to alike.
    · obtain ⟨k, x, hk, hgiven, hresult⟩ := h.same pair hold
      have hdoc : (writeBelow g.1 (Path.ofText g.1) g.2 pair (.document k x)).isWritableDocument = true :=
        isWritableDocument_writeBelow (Value.isWritableDocument_document hk)
      obtain ⟨k', x', hwritten, hk'⟩ := Value.exists_of_isWritableDocument hdoc
      refine ⟨k', x', hk', reached?_named_append ?_ [g], ?_⟩
      · rw [written, reached?_mapShared, hgiven, Option.map_some, if_pos (Value.isWritableDocument_document hk),
          changeShared, if_pos hold, hwritten]
      · rw [← setBelow_of_setAt hpath hset, reached?_setBelow hg hk hresult hkept, hwritten]
    · obtain ⟨hwritable, w, hw⟩ := mem_nestedNames.mp hf
      have hheld := Value.reached?_of_holdsDocument hg hwritable hw
      obtain ⟨_, _, _, _, hdoc⟩ := hw
      obtain ⟨k, x, rfl, hk⟩ := Value.exists_of_isWritableDocument hdoc
      refine ⟨k, x, hk, ?_, ?_⟩
      · rw [hname, reached?_named, get?_named hnames' (by simp), Option.bind_some, hheld]
      · have hplace := reached?_of_merged plain_ne_readOnly hpath hg hset hmerged hheld
        rwa [placeOf, hname]

/-- A document in a field that shares it is the one at its place in the result. -/
theorem Coheres.exists_of_holdsDocument (h : Coheres d done pairs) (hnames : done.Pairwise fun e f => e.1 ≠ f.1)
    (he : e ∈ done) (hdistinct : e.2.HasDistinctKeys) (hpair : (e.1, f) ∈ pairs) (hw : e.2.HoldsDocument f w) :
    ∃ k x, k ≠ .readOnly ∧ w = .document k x ∧ (Value.plain d).reached? (Path.keys (placeOf (e.1, f))) = some w := by
  obtain ⟨k, x, hk, hgiven, hresult⟩ := h.same _ hpair
  rw [reached?_named, get?_named hnames he, Option.bind_some] at hgiven
  obtain ⟨kind, fields, hfields, hkind⟩ := exists_document_of_reached? hk hgiven
  have hwritable : (writable? e.2).isSome = true := by
    rw [hfields, writable?_document hkind]
    rfl
  obtain rfl := Option.some.inj ((Value.reached?_of_holdsDocument hdistinct hwritable hw).symm.trans hgiven)
  exact ⟨k, x, hk, rfl, hresult⟩

end Sharing

end EntityStore

import EntityStore.Proofs.Document.Coherence

namespace EntityStore

open Document Expand

namespace Sharing

/-- The last value that stands at a place of the result while fields are set in it one after the other, up to the one
that overwrites it or fails. -/
def lastAt (p : Path) : Document → List (String × Value) → Option Value
  | d, [] => (Value.plain d).reached? p.keys
  | d, g :: rest =>
    if overwrites g.2 (Path.ofText g.1) p then (Value.plain d).reached? p.keys
    else match setAt g.1 (Path.ofText g.1).keys g.2 d with
      | .ok d => lastAt p d rest
      | .error _ => (Value.plain (setBelow g.1 (Path.ofText g.1).keys g.2 d)).reached? p.keys

/-- The fields as they are after they were expanded. Where one of them was merged into the result, the documents in it
are what stood in their places last. -/
def writtenThrough : Document → List (String × Value) → List (String × Value)
  | _, [] => []
  | d, e :: rest =>
    match setAt e.1 (Path.ofText e.1).keys e.2 d with
    | .ok d' =>
      let after := if (valueAt? (Path.ofText e.1).keys d).isSome then
          e.2.mapDocuments fun f w => (lastAt (placeOf (e.1, f)) d' rest).getD w
        else e.2
      (e.1, after) :: writtenThrough d' rest
    | .error _ => e :: rest

/-- Whether a document in a field becomes part of the result, with these fields to be set after it: what the result
holds at the path of the field by then has the field merged into it. -/
inductive SharesDocument : Document → List (String × Value) → String × Value → String → List (String × Value) → Prop
  | merged {d d' : Document} {e : String × Value} {f : String} {w : Value} {after : List (String × Value)}
      (hset : setAt e.1 (Path.ofText e.1).keys e.2 d = .ok d')
      (hpresent : (valueAt? (Path.ofText e.1).keys d).isSome = true) (hw : e.2.HoldsDocument f w) :
      SharesDocument d (e :: after) e f after
  | later {d d' : Document} {g e : String × Value} {f : String} {fields after : List (String × Value)}
      (hset : setAt g.1 (Path.ofText g.1).keys g.2 d = .ok d') (h : SharesDocument d' fields e f after) :
      SharesDocument d (g :: fields) e f after

/-- A shared document after fields were set. -/
def lastShared (d : Document) (rest : List (String × Value)) (pair : String × String) (w : Value) : Value :=
  (lastAt (placeOf pair) d rest).getD w

/-- A field that was set before others, after these were set. -/
def settled (d : Document) (rest : List (String × Value)) (pairs : List (String × String)) :
    String × Value → String × Value :=
  mapShared pairs (lastShared d rest)

variable {f : String} {p : Path} {w : Value} {d d' x : Document} {k : DocumentKind} {pair : String × String}
  {pairs : List (String × String)} {es done rest : List (String × Value)} {e g : String × Value}

theorem lastAt_of_overwrites (h : overwrites g.2 (Path.ofText g.1) p = true) :
    lastAt p d (g :: rest) = (Value.plain d).reached? p.keys := by
  rw [lastAt, if_pos h]

theorem lastAt_of_ok (h : overwrites g.2 (Path.ofText g.1) p = false)
    (hset : setAt g.1 (Path.ofText g.1).keys g.2 d = .ok d') : lastAt p d (g :: rest) = lastAt p d' rest := by
  rw [lastAt, h, if_neg Bool.false_ne_true, hset]

theorem lastAt_of_error {refusal : Failure} (h : overwrites g.2 (Path.ofText g.1) p = false)
    (hset : setAt g.1 (Path.ofText g.1).keys g.2 d = .error refusal) :
    lastAt p d (g :: rest) = (Value.plain (setBelow g.1 (Path.ofText g.1).keys g.2 d)).reached? p.keys := by
  rw [lastAt, h, if_neg Bool.false_ne_true, hset]

/-- Where a document stands in the result there is one to the last. -/
theorem exists_lastAt (hrest : ∀ g ∈ rest, g.2.HasDistinctKeys) (hk : k ≠ .readOnly)
    (h : (Value.plain d).reached? (Path.keys (placeOf pair)) = some (.document k x)) :
    ∃ w, w.isWritableDocument = true ∧ lastAt (placeOf pair) d rest = some w := by
  induction rest generalizing d k x with
  | nil => exact ⟨_, Value.isWritableDocument_document hk, h⟩
  | cons g rest ih =>
    obtain ⟨hg, hrest⟩ := List.forall_mem_cons.mp hrest
    cases hover : overwrites g.2 (Path.ofText g.1) (placeOf pair) with
    | true => exact ⟨_, Value.isWritableDocument_document hk, (lastAt_of_overwrites hover).trans h⟩
    | false =>
      obtain ⟨k', x', hk', hbelow⟩ := exists_reached?_setBelow g.1 hg hk h hover
      cases hset : setAt g.1 (Path.ofText g.1).keys g.2 d with
      | error refusal => exact ⟨_, Value.isWritableDocument_document hk', (lastAt_of_error hover hset).trans hbelow⟩
      | ok d' =>
        rw [setBelow_of_setAt (Path.ofText_ne_nil g.1) hset] at hbelow
        rw [lastAt_of_ok hover hset]
        exact ih hrest hk' hbelow

/-- What stands at a place last is what the result holds there, if nothing overwrites it. -/
theorem lastAt_of_kept (hkept : ∀ g ∈ rest, ¬Overwrites (Path.ofText g.1) g.2 p.keys)
    (h : (named rest).foldlM Expand.setField d = .ok d') : lastAt p d rest = (Value.plain d').reached? p.keys := by
  induction rest generalizing d with
  | nil =>
    obtain rfl := Except.ok.inj h
    rfl
  | cons g rest ih =>
    obtain ⟨hg, hkept⟩ := List.forall_mem_cons.mp hkept
    rw [named, List.map_cons, List.foldlM_cons, setField_named] at h
    obtain ⟨first, hfirst, h⟩ := Outcome.bind_eq_ok.mp h
    rw [lastAt_of_ok (Bool.eq_false_iff.mpr fun hover => hg (overwrites_iff.mp hover)) hfirst]
    exact ih hkept h

/-- A document that no later path leads into stays as it is, whether it is overwritten or not. -/
theorem lastAt_of_apart (hdistinct : ∀ g ∈ rest, g.2.HasDistinctKeys)
    (hapart : ∀ g ∈ rest, ¬placeOf pair <+: Path.ofText g.1) (hk : k ≠ .readOnly)
    (h : (Value.plain d).reached? (Path.keys (placeOf pair)) = some (.document k x)) :
    lastAt (placeOf pair) d rest = some (.document k x) := by
  induction rest generalizing d with
  | nil => exact h
  | cons g rest ih =>
    obtain ⟨hg, hdistinct⟩ := List.forall_mem_cons.mp hdistinct
    obtain ⟨hinto, hapart⟩ := List.forall_mem_cons.mp hapart
    cases hover : overwrites g.2 (Path.ofText g.1) (placeOf pair) with
    | true => rw [lastAt_of_overwrites hover, h]
    | false =>
      have hsame : (Value.plain (setBelow g.1 (Path.ofText g.1).keys g.2 d)).reached? (Path.keys (placeOf pair)) =
          some (.document k x) := by
        rw [reached?_setBelow hg hk h hover, writeBelow, if_neg hinto]
      cases hset : setAt g.1 (Path.ofText g.1).keys g.2 d with
      | error refusal => rw [lastAt_of_error hover hset, hsame]
      | ok d' =>
        rw [setBelow_of_setAt (Path.ofText_ne_nil g.1) hset] at hsame
        rw [lastAt_of_ok hover hset]
        exact ih hdistinct hapart hsame

/-- A shared document, once another field was set: what becomes of it later is the same as from here on. -/
theorem changeShared_lastShared (h : Coheres d done pairs) (hdone : done.Pairwise fun e f => e.1 ≠ f.1)
    (hname : e.1 ≠ g.1) (hg : g.2.HasDistinctKeys) (hrest : ∀ g ∈ rest, g.2.HasDistinctKeys) (he : e ∈ done)
    (hdistinct : e.2.HasDistinctKeys) (hset : setAt g.1 (Path.ofText g.1).keys g.2 d = .ok d')
    (hw : e.2.HoldsDocument f w) :
    changeShared (pairsAfter d g pairs) (lastShared d' rest) (e.1, f)
        (changeShared pairs (writeBelow g.1 (Path.ofText g.1) g.2) (e.1, f) w) =
      changeShared pairs (lastShared d (g :: rest)) (e.1, f) w := by
  have hafter : (e.1, f) ∈ pairsAfter d g pairs ↔
      (e.1, f) ∈ pairs ∧ overwrites g.2 (Path.ofText g.1) (placeOf (e.1, f)) = false := by
    rw [mem_pairsAfter h]
    exact or_iff_left fun hmerged => hname hmerged.2.1
  by_cases hpair : (e.1, f) ∈ pairs
  · obtain ⟨k, x, hk, rfl, hresult⟩ := h.exists_of_holdsDocument hdone he hdistinct hpair hw
    cases hover : overwrites g.2 (Path.ofText g.1) (placeOf (e.1, f)) with
    | true =>
      have hnot : ¬(e.1, f) ∈ pairsAfter d g pairs := fun hmem => by simp [hafter, hover] at hmem
      rw [changeShared, if_neg hnot, changeShared, if_pos hpair, changeShared, if_pos hpair, writeBelow,
        if_neg (not_prefix_of_overwrites hover), lastShared, lastAt_of_overwrites hover, hresult, Option.getD_some]
    | false =>
      obtain ⟨k', x', hk', hbelow⟩ := exists_reached?_setBelow g.1 hg hk hresult hover
      rw [setBelow_of_setAt (Path.ofText_ne_nil g.1) hset] at hbelow
      obtain ⟨u, -, hu⟩ := exists_lastAt hrest hk' hbelow
      rw [changeShared, if_pos (hafter.mpr ⟨hpair, hover⟩), changeShared, if_pos hpair, changeShared, if_pos hpair,
        lastShared, lastShared, lastAt_of_ok hover hset, hu, Option.getD_some, Option.getD_some]
  · have hnot : ¬(e.1, f) ∈ pairsAfter d g pairs := fun hmem => hpair (hafter.mp hmem).1
    rw [changeShared, if_neg hnot, changeShared, if_neg hpair, changeShared, if_neg hpair]

/-- A field that was set before, once another one was set. -/
theorem settled_written (h : Coheres d done pairs) (hnames : (done ++ g :: rest).Pairwise fun e f => e.1 ≠ f.1)
    (hdistinct : ∀ e ∈ done ++ g :: rest, e.2.HasDistinctKeys) (he : e ∈ done)
    (hset : setAt g.1 (Path.ofText g.1).keys g.2 d = .ok d') :
    settled d' rest (pairsAfter d g pairs) (written g pairs e) = settled d (g :: rest) pairs e := by
  obtain ⟨hdone, hrest, hapart⟩ := List.pairwise_append.mp hnames
  have hname : e.1 ≠ g.1 := hapart e he g (by simp)
  have hlater : ∀ g' ∈ rest, g'.2.HasDistinctKeys := fun g' hg' => hdistinct g' (by simp [hg'])
  rw [settled, written, settled, mapShared, mapShared, mapShared, Value.mapDocuments_mapDocuments]
  · congr 1
    refine Value.mapDocuments_congr fun f w hw => ?_
    have hg : g.2.HasDistinctKeys := hdistinct g (by simp)
    exact changeShared_lastShared (e := e) h hdone hname hg hlater he (hdistinct e (by simp [he])) hset hw
  · exact fun f w hw => isWritableDocument_changeShared isWritableDocument_writeBelow hw.isWritableDocument

/-- A field that was set before, when setting another one fails. -/
theorem written_eq_settled {refusal : Failure} (h : Coheres d done pairs)
    (hnames : (done ++ g :: rest).Pairwise fun e f => e.1 ≠ f.1)
    (hdistinct : ∀ e ∈ done ++ g :: rest, e.2.HasDistinctKeys) (he : e ∈ done)
    (hset : setAt g.1 (Path.ofText g.1).keys g.2 d = .error refusal) :
    written g pairs e = settled d (g :: rest) pairs e := by
  refine mapShared_congr fun f w hpair hw => ?_
  obtain ⟨k, x, hk, rfl, hresult⟩ :=
    h.exists_of_holdsDocument (List.pairwise_append.mp hnames).1 he (hdistinct e (by simp [he])) hpair hw
  rw [lastShared]
  cases hover : overwrites g.2 (Path.ofText g.1) (placeOf (e.1, f)) with
  | true =>
    rw [writeBelow, if_neg (not_prefix_of_overwrites hover), lastAt_of_overwrites hover, hresult, Option.getD_some]
  | false =>
    rw [lastAt_of_error hover hset, reached?_setBelow (hdistinct g (by simp)) hk hresult hover, Option.getD_some]

/-- The field that was set last. -/
theorem settled_self (h : Coheres d done pairs) (hname : ∀ e ∈ done, e.1 ≠ g.1)
    (hset : setAt g.1 (Path.ofText g.1).keys g.2 d = .ok d') :
    settled d' rest (pairsAfter d g pairs) g = (g.1, if (valueAt? (Path.ofText g.1).keys d).isSome then
      g.2.mapDocuments fun f w => (lastAt (placeOf (g.1, f)) d' rest).getD w else g.2) := by
  have hafter (f : String) : (g.1, f) ∈ pairsAfter d g pairs ↔
      (valueAt? (Path.ofText g.1).keys d).isSome = true ∧ f ∈ nestedNames g.2 := by
    rw [mem_pairsAfter h]
    constructor
    · rintro (⟨hpair, -⟩ | ⟨hmerged, -, hf⟩)
      · obtain ⟨e, he, hsame⟩ := h.exists_mem hpair
        exact absurd hsame (hname e he)
      · exact ⟨hmerged, hf⟩
    · rintro ⟨hmerged, hf⟩
      exact .inr ⟨hmerged, rfl, hf⟩
  by_cases hmerged : (valueAt? (Path.ofText g.1).keys d).isSome = true
  · obtain ⟨_, _, new, -, -, hnew⟩ := exists_of_setAt_present plain_ne_readOnly hset hmerged
    rw [if_pos hmerged, settled, mapShared]
    congr 1
    refine Value.mapDocuments_congr fun f w hw => ?_
    have hnested : f ∈ nestedNames g.2 := mem_nestedNames.mpr ⟨by rw [hnew]; rfl, w, hw⟩
    rw [changeShared, if_pos ((hafter f).mpr ⟨hmerged, hnested⟩), lastShared]
  · rw [if_neg hmerged]
    exact mapShared_eq_self fun f w hpair _ => absurd ((hafter f).mp hpair).1 hmerged

theorem setFields_cons (s : State) (g : String × Value) (rest : List (String × Value)) :
    setFields s (named (g :: rest)) = match setField s (.text g.1) g.2 g.1 (Path.ofText g.1).keys with
      | (s, true) => setFields s (named rest)
      | (s, false) => s := rfl

/-- Fields that were set before, and fields that are still to be set, after all of these were set. The induction is on
the fields to be set; that what is shared coheres is what each of them preserves. -/
theorem given_setFields {shared : List Shared} (hcoheres : Coheres d done pairs)
    (hshared : shared.filter IsNamed = pairs.map sharedUnder)
    (hnames : (done ++ rest).Pairwise fun e f => e.1 ≠ f.1) (hdistinct : ∀ e ∈ done ++ rest, e.2.HasDistinctKeys) :
    (setFields ⟨d, named (done ++ rest), shared⟩ (named rest)).given =
      named (done.map (settled d rest pairs) ++ writtenThrough d rest) := by
  induction rest generalizing d done pairs shared with
  | nil =>
    rw [List.append_nil] at hnames hdistinct ⊢
    have hself : ∀ e ∈ done, settled d [] pairs e = e := by
      refine fun e he => mapShared_eq_self fun f w hpair hw => ?_
      obtain ⟨_, _, -, -, hresult⟩ := hcoheres.exists_of_holdsDocument hnames he (hdistinct e he) hpair hw
      rw [lastShared, lastAt, hresult, Option.getD_some]
    rw [List.map_congr_left hself, List.map_id', writtenThrough, List.append_nil]
    rfl
  | cons g rest ih =>
    obtain ⟨hdone, hothers, hapart⟩ := List.pairwise_append.mp hnames
    have hname : ∀ e ∈ done, e.1 ≠ g.1 := fun e he => hapart e he g (by simp)
    -- Only fields that were set share anything, so those that are still to be set are read as they were given.
    have hunshared : ∀ e ∈ g :: rest, written g pairs e = e := by
      refine fun e he => mapShared_eq_self fun f w hpair _ => ?_
      obtain ⟨e', he', hsame⟩ := hcoheres.exists_mem hpair
      exact absurd hsame (hapart e' he' e he)
    have hgiven : shared.foldl (setInGiven g.1 (Path.ofText g.1).keys g.2) (named (done ++ g :: rest)) =
        named (done.map (written g pairs) ++ g :: rest) := by
      rw [foldl_setInGiven, hshared, foldl_sharedUnder hcoheres.nodup hnames hdistinct ?_, ← written, List.map_append,
        List.map_congr_left hunshared, List.map_id']
      intro pair hpair
      obtain ⟨k, x, hk, hheld, -⟩ := hcoheres.same pair hpair
      exact ⟨k, x, hk, reached?_named_append hheld _⟩
    rw [setFields_cons, setField, hgiven, writtenThrough]
    cases hset : setAt g.1 (Path.ofText g.1).keys g.2 d with
    | error refusal =>
      have hsettled : ∀ e ∈ done, written g pairs e = settled d (g :: rest) pairs e :=
        fun e he => written_eq_settled hcoheres hnames hdistinct he hset
      simp only [List.map_congr_left hsettled]
    | ok d' =>
      have hsplit : done ++ g :: rest = (done ++ [g]) ++ rest := by simp
      have hstep := hcoheres.step (List.pairwise_append.mp (hsplit ▸ hnames)).1 (hdistinct g (by simp)) hset
      have hnames' : (done.map (written g pairs) ++ g :: rest).Pairwise fun e f => e.1 ≠ f.1 :=
        pairwise_mapShared_append hnames
      have hrun := ih hstep (filter_sharedAfter (named (done ++ g :: rest)) hset hshared) (by simpa using hnames') ?_
      · have hearlier : done.map (settled d' rest (pairsAfter d g pairs) ∘ written g pairs) =
            done.map (settled d (g :: rest) pairs) :=
          List.map_congr_left fun e he => settled_written hcoheres hnames hdistinct he hset
        rw [List.append_assoc, List.singleton_append, List.map_append, List.map_map, hearlier, List.map_singleton,
          settled_self hcoheres hname hset, List.append_assoc, List.singleton_append] at hrun
        exact hrun
      · intro e he
        rw [List.append_assoc, List.singleton_append] at he
        rcases List.mem_append.mp he with he | he
        · exact hasDistinctKeys_mapShared (fun e he => hdistinct e (by simp [he])) e he
        · exact hdistinct e (by simp [he])

theorem names_writtenThrough (d : Document) (fields : List (String × Value)) :
    (writtenThrough d fields).map Prod.fst = fields.map Prod.fst := by
  induction fields generalizing d with
  | nil => rfl
  | cons e rest ih =>
    rw [writtenThrough]
    split
    · rw [List.map_cons, List.map_cons, ih]
    · rfl

theorem pairwise_writtenThrough (d : Document) (h : es.Pairwise fun e f => e.1 ≠ f.1) :
    (writtenThrough d es).Pairwise fun e f => e.1 ≠ f.1 := by
  rw [← List.pairwise_map (f := Prod.fst) (R := fun s t => s ≠ t)] at h ⊢
  rwa [names_writtenThrough]

/-- The documents in a field that is merged stand at their places in the result then. -/
theorem exists_document_of_merged (he : e.2.HasDistinctKeys) (hset : setAt e.1 (Path.ofText e.1).keys e.2 d = .ok d')
    (hpresent : (valueAt? (Path.ofText e.1).keys d).isSome = true) (hw : e.2.HoldsDocument f w) :
    ∃ k x, k ≠ .readOnly ∧ w = .document k x ∧ e.2.reached? [.text f] = some w ∧
      (Value.plain d').reached? (Path.keys (placeOf (e.1, f))) = some w := by
  obtain ⟨_, _, new, -, -, hnew⟩ := exists_of_setAt_present plain_ne_readOnly hset hpresent
  have hheld := Value.reached?_of_holdsDocument he (by rw [hnew]; rfl) hw
  obtain ⟨_, _, _, _, hdoc⟩ := hw
  obtain ⟨k, x, rfl, hk⟩ := Value.exists_of_isWritableDocument hdoc
  exact ⟨k, x, hk, rfl, hheld, reached?_of_merged plain_ne_readOnly (Path.ofText_ne_nil e.1) he hset hpresent hheld⟩

/-- A document that a field shares stands at its place in the result, and becomes what stands there last. -/
theorem SharesDocument.exists_result {es after : List (String × Value)} (h : SharesDocument d es e f after)
    (hdistinct : ∀ e ∈ es, e.2.HasDistinctKeys) :
    ∃ d' k x, k ≠ .readOnly ∧ e.2.reached? [.text f] = some (.document k x) ∧
      (Value.plain d').reached? (Path.keys (placeOf (e.1, f))) = some (.document k x) ∧
      (e.1, e.2.mapDocuments fun f w => (lastAt (placeOf (e.1, f)) d' after).getD w) ∈ writtenThrough d es ∧
      (∀ g ∈ after, g.2.HasDistinctKeys) ∧
      (named es).foldlM Expand.setField d = (named after).foldlM Expand.setField d' := by
  induction h with
  | @merged d d' e f w after hset hpresent hw =>
    obtain ⟨he, hafter⟩ := List.forall_mem_cons.mp hdistinct
    obtain ⟨k, x, hk, rfl, hheld, hresult⟩ := exists_document_of_merged he hset hpresent hw
    refine ⟨d', k, x, hk, hheld, hresult, ?_, hafter, ?_⟩
    · rw [writtenThrough, hset]
      simp [hpresent]
    · rw [named, List.map_cons, List.foldlM_cons, setField_named, hset]
      rfl
  | @later d d' g e f es after hset _ ih =>
    obtain ⟨r, k, x, hk, hheld, hresult, hmem, hafter, hrun⟩ := ih (List.forall_mem_cons.mp hdistinct).2
    refine ⟨r, k, x, hk, hheld, hresult, ?_, hafter, ?_⟩
    · rw [writtenThrough, hset]
      exact List.mem_cons_of_mem _ hmem
    · rw [named, List.map_cons, List.foldlM_cons, setField_named, hset]
      exact hrun

/-- Fields that share no document that a later path leads into stay as they are. -/
theorem writtenThrough_eq_self (hdistinct : ∀ e ∈ es, e.2.HasDistinctKeys)
    (h : ∀ e f after, SharesDocument d es e f after → ∀ g ∈ after, ¬placeOf (e.1, f) <+: Path.ofText g.1) :
    writtenThrough d es = es := by
  induction es generalizing d with
  | nil => rfl
  | cons e rest ih =>
    obtain ⟨he, hrest⟩ := List.forall_mem_cons.mp hdistinct
    rw [writtenThrough]
    cases hset : setAt e.1 (Path.ofText e.1).keys e.2 d with
    | error refusal => rfl
    | ok d' =>
      simp only
      rw [ih hrest fun e f after hshares => h e f after (.later hset hshares)]
      split
      · next hpresent =>
        have hself : e.2.mapDocuments (fun f w => (lastAt (placeOf (e.1, f)) d' rest).getD w) = e.2 := by
          refine Value.mapDocuments_eq_self fun f w hw => ?_
          obtain ⟨k, x, hk, rfl, -, hresult⟩ := exists_document_of_merged he hset hpresent hw
          rw [lastAt_of_apart hrest (h e f rest (.merged hset hpresent hw)) hk hresult, Option.getD_some]
        rw [hself]
      · rfl

end Sharing

open Sharing

/-- What becomes of a document with fields under names while it is expanded, whether that fails or not. The fields keep
their names and their order, and only documents in fields that are merged change: each becomes what the result held last
at its place. If no later path leads into any of them, the document stays as it is. Those that no later field overwrites
are one and the same in the result and in what was given. -/
theorem afterExpansion_writtenThrough (kind : DocumentKind) {fields : List (String × Value)}
    (hnames : fields.Pairwise fun e f => e.1 ≠ f.1) (hdistinct : ∀ e ∈ fields, e.2.HasDistinctKeys) :
    afterExpansion (.document kind (named fields)) = .document kind (named (writtenThrough [] fields)) ∧
    ((∀ e f after, SharesDocument [] fields e f after → ∀ g ∈ after, ¬placeOf (e.1, f) <+: Path.ofText g.1) →
      afterExpansion (.document kind (named fields)) = .document kind (named fields)) ∧
    ∀ e f after, SharesDocument [] fields e f after →
      (∀ g ∈ after, ¬Overwrites (Path.ofText g.1) g.2 (Path.keys (placeOf (e.1, f)))) →
      ∀ d, expand (.document kind (named fields)) = .ok d → ∃ w, w.isWritableDocument = true ∧
        (Value.plain d).reached? (Path.keys (placeOf (e.1, f))) = some w ∧
        (Value.plain (named (writtenThrough [] fields))).reached? [.text e.1, .text f] = some w := by
  have hnothing : Coheres [] [] [] := ⟨List.nodup_nil, fun _ h => nomatch h⟩
  have hgiven : afterExpansion (.document kind (named fields)) = .document kind (named (writtenThrough [] fields)) := by
    rw [afterExpansion]
    congr 1
    exact given_setFields hnothing rfl hnames hdistinct
  refine ⟨hgiven, fun hinto => ?_, fun e f after hshares hkept d hd => ?_⟩
  · rw [hgiven, writtenThrough_eq_self hdistinct hinto]
  · obtain ⟨d', k, x, hk, hheld, hresult, hmem, hafter, hrun⟩ := hshares.exists_result hdistinct
    obtain ⟨w, hw, hlast⟩ := exists_lastAt hafter hk hresult
    refine ⟨w, hw, ?_, ?_⟩
    · have hrest : (named after).foldlM Expand.setField d' = .ok d := hrun.symm.trans hd
      rw [← lastAt_of_kept hkept hrest, hlast]
    · have hthere := get?_named (pairwise_writtenThrough [] hnames) hmem
      rw [reached?_named, hthere, Option.bind_some, Value.reached?_mapDocuments, hheld, Option.map_some,
        if_pos (Value.isWritableDocument_document hk), hlast, Option.getD_some]

/-- A street, an address with visits that is merged into what the street made, and the last of these visits. -/
def visited : List (String × Value) :=
  [("address.street", .text "Elm"), ("address", .plain [(.text "visits", .plain [])]), ("address.visits.last", .int 2)]

/-- The visits that were given have a last one afterwards, as they are those of the result. -/
theorem afterExpansion_writtenThrough_visited :
    visited.Pairwise (fun e f => e.1 ≠ f.1) ∧ (∀ e ∈ visited, e.2.HasDistinctKeys) ∧
      afterExpansion (.plain (named visited)) = .plain (named
        [("address.street", .text "Elm"), ("address", .plain [(.text "visits", .plain [(.text "last", .int 2)])]),
          ("address.visits.last", .int 2)]) ∧
      ∃ d w, expand (.plain (named visited)) = .ok d ∧
        (Value.plain d).reached? [.text "address", .text "visits"] = some w ∧
        (Value.plain (named (writtenThrough [] visited))).reached? [.text "address", .text "visits"] = some w := by
  have hstreet : Path.ofText "address.street" = ["address", "street"] := by decide +kernel
  have haddress : Path.ofText "address" = ["address"] := by decide +kernel
  have hlast : Path.ofText "address.visits.last" = ["address", "visits", "last"] := by decide +kernel
  have hnames : visited.Pairwise fun e f => e.1 ≠ f.1 := by decide
  have hdistinct : ∀ e ∈ visited, e.2.HasDistinctKeys := by
    simp [visited, Value.HasDistinctKeys, writable?]
  obtain ⟨hgiven, -, hsame⟩ := afterExpansion_writtenThrough .plain hnames hdistinct
  refine ⟨hnames, hdistinct, ?_, ?_⟩
  · rw [hgiven]
    simp only [visited, writtenThrough, hstreet, haddress, hlast]
    rfl
  · obtain ⟨d, hd⟩ : ∃ d, expand (.plain (named visited)) = .ok d := ⟨_, rfl⟩
    have hmade : setAt "address.street" (Path.ofText "address.street").keys (.text "Elm") [] =
        .ok [(.text "address", .plain [(.text "street", .text "Elm")])] := by
      rw [hstreet]
      rfl
    have hmerged : setAt "address" (Path.ofText "address").keys (.plain [(.text "visits", .plain [])])
        [(.text "address", .plain [(.text "street", .text "Elm")])] =
          .ok [(.text "address", .plain [(.text "street", .text "Elm"), (.text "visits", .plain [])])] := by
      rw [haddress]
      rfl
    have hpresent : (valueAt? (Path.ofText "address").keys
        [(.text "address", .plain [(.text "street", .text "Elm")])]).isSome = true := by
      rw [haddress]
      rfl
    have hshares : SharesDocument [] visited ("address", .plain [(.text "visits", .plain [])]) "visits"
        [("address.visits.last", .int 2)] :=
      .later hmade (.merged hmerged hpresent ⟨_, _, rfl, List.mem_singleton_self _, rfl⟩)
    have hplace : Path.keys (placeOf ("address", "visits")) = [.text "address", .text "visits"] := by
      rw [placeOf, haddress]
      rfl
    have hkept : ∀ g ∈ [("address.visits.last", Value.int 2)],
        ¬Overwrites (Path.ofText g.1) g.2 (Path.keys (placeOf ("address", "visits"))) := by
      refine List.forall_mem_singleton.mpr fun hoverwrites => ?_
      rw [← overwrites_iff, hlast, placeOf, haddress] at hoverwrites
      cases hoverwrites
    obtain ⟨w, -, hresult, hthere⟩ := hsame _ _ _ hshares hkept d hd
    exact ⟨d, w, hd, hplace ▸ hresult, hthere⟩

end EntityStore
